import Mathlib.Data.String.Basic
import Stencil.Proofs.Faults
import Stencil.Proofs.Rounds

set_option autoImplicit false

/-!
# Slices of a source

Reading a source takes slices of it, and each lies in the source: it begins no later than it ends, and
both at characters. From round to round the text position moves on, and the search position is never
in front of it, so the rounds of a source come to an end.
-/
namespace Stencil

def offset (source : String) (cs : List Char) : String.Pos.Raw :=
  ⟨source.utf8ByteSize - (String.ofList cs).utf8ByteSize⟩

structure Slice where
  start : String.Pos.Raw
  stop : String.Pos.Raw

def Span.slice (source : String) (s : Span) : Slice := ⟨offset source s.start, offset source s.stop⟩

/-- A slice can be taken: it lies in the source, with characters at both of its ends. -/
structure Slice.InBounds (source : String) (s : Slice) : Prop where
  start : s.start.IsValid source
  stop : s.stop.IsValid source
  ordered : s.start ≤ s.stop

section
variable {source : String} {front cs ds : List Char}

theorem offset_eq (h : front ++ cs = source.toList) : offset source cs = ⟨String.utf8Len front⟩ := by
  have hsource : source = String.ofList (front ++ cs) := by rw [h, String.ofList_toList]
  rw [String.Pos.Raw.ext_iff]
  unfold offset
  rw [hsource, String.utf8ByteSize_ofList, String.utf8ByteSize_ofList, String.utf8Len_append]
  exact Nat.add_sub_cancel _ _

/-- Places are counted in bytes. -/
example : offset "né {{x}}" "{{x}}".toList = ⟨4⟩ := by decide

theorem isValid_offset (h : cs <:+ source.toList) : (offset source cs).IsValid source := by
  obtain ⟨front, hfront⟩ := h
  refine String.Pos.Raw.isValid_iff_exists_append.2 ⟨.ofList front, .ofList cs, ?_, ?_⟩
  · rw [← String.ofList_append, hfront, String.ofList_toList]
  · rw [offset_eq hfront, String.Pos.Raw.ext_iff, String.byteIdx_rawEndPos,
      String.utf8ByteSize_ofList]

theorem offset_le (source : String) (h : ds <:+ cs) : offset source cs ≤ offset source ds := by
  obtain ⟨between, rfl⟩ := h
  rw [String.Pos.Raw.le_iff]
  refine Nat.sub_le_sub_left ?_ _
  rw [String.utf8ByteSize_ofList, String.utf8ByteSize_ofList, String.utf8Len_append]
  exact Nat.le_add_left _ _

theorem offset_cons {c : Char} (h : c :: cs <:+ source.toList) :
    offset source cs = ⟨(offset source (c :: cs)).byteIdx + c.utf8Size⟩ := by
  obtain ⟨front, hfront⟩ := h
  rw [offset_eq hfront, offset_eq ((List.append_cons front c cs).symm.trans hfront),
    String.utf8Len_append]
  simp

theorem offset_lt (h : cs <:+ source.toList) (hsuffix : ds <:+ cs) (hlt : ds.length < cs.length) :
    offset source cs < offset source ds := by
  obtain ⟨between, rfl⟩ := hsuffix
  cases between with
  | nil => exact absurd hlt (Nat.lt_irrefl _)
  | cons c between =>
    have hle : offset source (between ++ ds) ≤ offset source ds :=
      offset_le source (List.suffix_append between ds)
    rw [List.cons_append] at h ⊢
    rw [offset_cons h, String.Pos.Raw.le_iff] at hle
    rw [String.Pos.Raw.lt_iff]
    exact Nat.lt_of_lt_of_le (Nat.lt_add_of_pos_right c.utf8Size_pos) hle

theorem Span.slice_inBounds {s : Span} (h : s.start <:+ source.toList) (hstop : s.stop <:+ s.start) :
    (s.slice source).InBounds source where
  start := isValid_offset h
  stop := isValid_offset (hstop.trans h)
  ordered := offset_le source hstop

theorem Span.extract_slice {s : Span} (h : s.start <:+ source.toList) (hstop : s.stop <:+ s.start) :
    String.Pos.Raw.extract source (s.slice source).start (s.slice source).stop =
      String.ofList s.text := by
  obtain ⟨front, hfront⟩ := h
  have htext := Span.text_append hstop
  have hsource : front ++ s.text ++ s.stop = source.toList := by
    rw [List.append_assoc, htext, hfront]
  unfold slice
  rw [offset_eq hfront, offset_eq hsource, String.utf8Len_append]
  conv_lhs => rw [← String.ofList_toList (s := source), ← hsource]
  exact String.extract_of_valid _ _ _

end

theorem Token.append_quote_of_closeQuote {quote : Char} {cs text rest : List Char}
    (h : closeQuote quote cs = some (text, rest)) : ∃ front, text = front ++ [quote] := by
  fun_induction closeQuote quote cs generalizing text with
  | case1 => cases h
  | case2 => cases h
  | case3 c cs _ ih =>
    obtain ⟨⟨text', rest'⟩, h', he⟩ := Option.map_eq_some_iff.1 h
    cases he
    obtain ⟨front, rfl⟩ := ih h'
    exact ⟨'\\' :: c :: front, rfl⟩
  | case4 cs =>
    cases h
    exact ⟨[], rfl⟩
  | case5 => cases h
  | case6 c cs _ _ _ ih =>
    obtain ⟨⟨text', rest'⟩, h', he⟩ := Option.map_eq_some_iff.1 h
    cases he
    obtain ⟨front, rfl⟩ := ih h'
    exact ⟨c :: front, rfl⟩

/-- A constant that begins with a quote ends with one that closes it. -/
theorem Token.append_quote_of_read {cs rest inner : List Char} {t : Token} {quote : Char}
    (h : Token.read cs = .ok (t, rest)) (hkind : t.kind = .const) (htext : t.text = quote :: inner)
    (hquote : quote = '"' ∨ quote = '\'') : ∃ front, inner = front ++ [quote] := by
  have hcs := (append_of_read h).1
  rw [htext] at hcs
  subst hcs
  cases hfound : composite? (quote :: inner ++ rest) with
  | none =>
    have hsymbol := (read_eq_symbol hfound h).1
    rw [hkind] at hsymbol
    exact absurd hsymbol symbol?_ne.1
  | some found =>
    cases (read_of_composite? hfound).symm.trans h
    rw [List.cons_append, composite?_of_quote hquote] at hfound
    have hsplit := of_tokenOf hfound
    rw [htext] at hsplit
    rcases hquote with rfl | rfl
    all_goals
      obtain ⟨⟨behind, rest'⟩, hclose, he⟩ := Option.map_eq_some_iff.1 hsplit
      cases he
      exact append_quote_of_closeQuote hclose

namespace Cursor

inductive Reader
  | call (fallback : Option Helper)
  | expression
  | operand
  | argument
  | arguments

/-- The slices that a reader takes from a cursor on: the heads of calls, and constants without the
byte at either end, which are their quotes. -/
inductive Takes (source : String) (d : Dialect) : Reader → Cursor → Slice → Prop
  | head {c : Cursor} {fallback : Option Helper} {a : c.Ahead Head}
    (h : c.head d fallback = .ok a) :
    Takes source d (.call fallback) c (Span.slice source ⟨c.chars, a.cursor.chars⟩)
  | behindHead {c : Cursor} {fallback : Option Helper} {a : c.Ahead Head} {s : Slice}
    (h : c.head d fallback = .ok a) (hs : Takes source d .arguments a.cursor s) :
    Takes source d (.call fallback) c s
  | expression {c : Cursor} {s : Slice} (hs : Takes source d (.call d.callFallback) c s) :
    Takes source d .expression c s
  | quoted {c : Cursor} {a : c.Ahead (Option Reference)} {quote : Char} {inner : List Char}
    (h : c.reference? = .ok a) (hr : a.result = none) (hkind : a.cursor.token.kind = .const)
    (htext : a.cursor.token.text = quote :: inner) (hquote : quote = '"' ∨ quote = '\'') :
    Takes source d .operand c
      ⟨⟨(offset source a.cursor.chars).byteIdx + 1⟩, ⟨(offset source a.cursor.rest).byteIdx - 1⟩⟩
  | nested {c : Cursor} {a : c.Ahead (Option Reference)} {p : a.cursor.Past} {b : p.1.Ahead Bool}
    {s : Slice} (h : c.reference? = .ok a) (hr : a.result = none)
    (hp : a.cursor.eat .leftParen = .ok (some p)) (hb : p.1.skip .space = .ok b)
    (hs : Takes source d .expression b.cursor s) : Takes source d .operand c s
  | named {c : Cursor} {a : c.Ahead (Option (List (String × String)))} {p : a.cursor.Past}
    {step : String × String} {s : Slice} (h : c.names? = .ok a) (hr : a.result = some [step])
    (hp : a.cursor.eat .equals = .ok (some p)) (hs : Takes source d .operand p.1 s) :
    Takes source d .argument c s
  | positional {c : Cursor} {a : c.Ahead (Option (List (String × String)))} {s : Slice}
    (h : c.names? = .ok a) (hr : a.result = none) (hs : Takes source d .operand a.cursor s) :
    Takes source d .argument c s
  | argument {c : Cursor} {p : c.Past} {s : Slice} (hp : c.eat .space = .ok (some p))
    (hs : Takes source d .argument p.1 s) : Takes source d .arguments c s
  | arguments {c : Cursor} {p : c.Past} {a : p.1.Ahead (Option Argument)} {arg : Argument}
    {s : Slice} (hp : c.eat .space = .ok (some p)) (ha : p.1.argument? d = .ok a)
    (hr : a.result = some arg) (hs : Takes source d .arguments a.cursor s) :
    Takes source d .arguments c s

structure In (source : String) (c : Cursor) : Prop where
  at_chars : c.At c.chars
  suffix : c.chars <:+ source.toList

section
variable {source : String} {d : Dialect} {cs : List Char} {c e : Cursor}

theorem Reaches.rest_suffix (h : c.Reaches e) : e.rest <:+ c.rest := by
  rcases h with rfl | ⟨-, h⟩
  · exact List.suffix_refl _
  · exact (List.suffix_append _ _).trans h

theorem In.reaches (hc : c.In source) (h : c.Reaches e) : e.In source :=
  ⟨h.at_chars hc.at_chars, h.chars_suffix.trans hc.suffix⟩

theorem In.slice (hc : c.In source) (h : c.Reaches e) :
    (Span.slice source ⟨c.chars, e.chars⟩).InBounds source :=
  Span.slice_inBounds hc.suffix h.chars_suffix

theorem In.quoted (hc : c.In source) {quote : Char} {inner : List Char}
    (hkind : c.token.kind = .const) (htext : c.token.text = quote :: inner)
    (hquote : quote = '"' ∨ quote = '\'') :
    Slice.InBounds source
      ⟨⟨(offset source c.chars).byteIdx + 1⟩, ⟨(offset source c.rest).byteIdx - 1⟩⟩ := by
  obtain ⟨front, rfl⟩ := Token.append_quote_of_read hc.at_chars hkind htext hquote
  have hsize : quote.utf8Size = 1 := by rcases hquote with rfl | rfl <;> decide
  have hchars : c.chars = quote :: (front ++ quote :: c.rest) := by
    unfold chars
    rw [htext]
    simp
  have hsuffix := hc.suffix
  rw [hchars] at hsuffix ⊢
  have hinner := (List.suffix_cons _ _).trans hsuffix
  have hlast : quote :: c.rest <:+ source.toList := (List.suffix_append _ _).trans hinner
  have hslice := Span.slice_inBounds (s := ⟨front ++ quote :: c.rest, quote :: c.rest⟩) hinner
    (List.suffix_append _ _)
  rw [offset_cons hlast, ← hsize, Nat.add_sub_cancel, ← offset_cons hsuffix]
  exact hslice

theorem reaches_of_eat {kind : TokenKind} {p : c.Past} (h : c.eat kind = .ok (some p)) :
    c.Reaches p.1 := by
  unfold eat at h
  split at h
  · obtain ⟨q, hq, h⟩ := bind_eq_ok.1 (map_eq_pure_bind (f := some) (x := c.next) ▸ h)
    cases h
    exact .of_next hq
  · cases h

theorem reaches_of_skip {kind : TokenKind} {a : c.Ahead Bool} (h : c.skip kind = .ok a) :
    c.Reaches a.cursor :=
  (skip_carries (alike_beyond c) kind a h).1

theorem reaches_of_names? {a : c.Ahead (Option (List (String × String)))} (h : c.names? = .ok a) :
    c.Reaches a.cursor :=
  (names?_carries (alike_beyond c) a h).1

theorem reaches_of_reference? {a : c.Ahead (Option Reference)} (h : c.reference? = .ok a) :
    c.Reaches a.cursor :=
  (reference?_carries (alike_beyond c) a h).1

theorem Takes.inBounds {reader : Reader} {s : Slice} (h : c.Takes source d reader s)
    (hc : c.In source) : s.InBounds source := by
  induction h with
  | head h => exact hc.slice (head_carries (alike_beyond _) d _ _ h).1
  | behindHead h _ ih => exact ih (hc.reaches (head_carries (alike_beyond _) d _ _ h).1)
  | expression _ ih => exact ih hc
  | quoted h _ hkind htext hquote =>
    exact (hc.reaches (reaches_of_reference? h)).quoted hkind htext hquote
  | nested h _ hp hb _ ih =>
    have hopening := hc.reaches ((reaches_of_reference? h).trans (reaches_of_eat hp))
    exact ih (hopening.reaches (reaches_of_skip hb))
  | named h _ hp _ ih => exact ih (hc.reaches ((reaches_of_names? h).trans (reaches_of_eat hp)))
  | positional h _ _ ih => exact ih (hc.reaches (reaches_of_names? h))
  | argument hp _ ih => exact ih (hc.reaches (reaches_of_eat hp))
  | arguments hp ha _ _ ih =>
    have hbehind := hc.reaches (reaches_of_eat hp)
    refine ih (hbehind.reaches ?_)
    exact ((localBelow d _ _ _).argument (alike_beyond _) (Nat.lt_succ_self _) _ ha).1

end
end Cursor

section
variable {source : String} {d : Dialect}

open Cursor in
/-- The slices that reading a tag takes: those of its calls, the name of a close tag or of a negated
section, what follows the opener of a comment, and the body of a raw block. -/
inductive Opener.Takes (source : String) (d : Dialect) (opener : Opener) : Slice → Prop
  | comment (h : opener.sigil = .comment ∨ opener.sigil = .longComment) :
    Takes source d opener (Span.slice source ⟨opener.rest, []⟩)
  | value {p : { c : Cursor // c.rest.length < opener.rest.length }} {s : Slice}
    (h : opener.sigil = .unescaped ∨ opener.sigil = .triple ∨ opener.sigil = .escaped)
    (hp : enter opener.rest = .ok p) (hs : p.1.Takes source d .expression s) :
    Takes source d opener s
  | otherwise {p : { c : Cursor // c.rest.length < opener.rest.length }} {word : p.1.Past}
    {space : word.1.Ahead Bool} {s : Slice} (h : opener.sigil = .escaped)
    (hp : enter opener.rest = .ok p) (hword : p.1.eat .elseWord = .ok (some word))
    (hspace : word.1.skip .space = .ok space)
    (hs : space.cursor.Takes source d (.call d.blockFallback) s) : Takes source d opener s
  | opening {p : { c : Cursor // c.rest.length < opener.rest.length }} {s : Slice}
    (h : opener.sigil = .opening ∨ opener.sigil = .raw) (hp : enter opener.rest = .ok p)
    (hs : p.1.Takes source d (.call d.blockFallback) s) : Takes source d opener s
  | negated {p : { c : Cursor // c.rest.length < opener.rest.length }}
    {a : p.1.Ahead (Option Reference)} (h : opener.sigil = .negated)
    (hp : enter opener.rest = .ok p) (ha : p.1.reference? = .ok a) :
    Takes source d opener (Span.slice source ⟨p.1.chars, a.cursor.chars⟩)
  | closing {p : { c : Cursor // c.rest.length < opener.rest.length }}
    {a : p.1.Ahead (Option (List (String × String)))} (h : opener.sigil = .closing)
    (hp : enter opener.rest = .ok p) (ha : p.1.names? = .ok a) :
    Takes source d opener (Span.slice source ⟨p.1.chars, a.cursor.chars⟩)
  | inclusion {p : { c : Cursor // c.rest.length < opener.rest.length }} {a : p.1.Ahead String}
    {s : Slice} (h : opener.sigil = .inclusion) (hp : enter opener.rest = .ok p)
    (ha : p.1.inclusionName = .ok a) (hs : a.cursor.Takes source d .arguments s) :
    Takes source d opener s
  | rawBody {p : { c : Cursor // c.rest.length < opener.rest.length }} {call : p.1.Ahead (Call Expr)}
    {a : call.cursor.Ahead Bool} {body : List Char} {closer : RawEnd} (h : opener.sigil = .raw)
    (hp : enter opener.rest = .ok p) (hcall : p.1.blockCall d = .ok call)
    (ha : call.cursor.closer 2 = .ok a)
    (hbody : rawBody? call.result.name.toList a.cursor.rest = some (body, closer)) :
    Takes source d opener
      (Span.slice source ⟨a.cursor.rest, a.cursor.rest.drop body.length⟩)

namespace Cursor

theorem In.enter {cs : List Char} (h : cs <:+ source.toList)
    {p : { c : Cursor // c.rest.length < cs.length }} (hp : Cursor.enter cs = .ok p) :
    p.1.In source := by
  obtain ⟨⟨c, hc⟩, hstart, hp⟩ := bind_eq_ok.1 hp
  obtain ⟨a, ha, hp⟩ := bind_eq_ok.1 hp
  cases hp
  have hat := at_of_start hstart
  have hin : c.In source := ⟨hat.chars.symm ▸ hat, hat.chars.symm ▸ h⟩
  exact hin.reaches (reaches_of_skip ha)

variable {c : Cursor}

theorem In.rest (hc : c.In source) : c.rest <:+ source.toList :=
  (List.suffix_append _ _).trans hc.suffix

theorem inclusionName_reaches : Always (fun a => c.Reaches a.cursor) c.inclusionName := by
  refine .map (p := fun a => c.Reaches a.cursor) ?_ fun a ha => ha
  unfold names
  refine .bind (fun a ha => reaches_of_names? ha) ?_
  rintro ⟨path, e, he⟩ hreaches
  cases path with
  | none => exact .error
  | some path => exact .ok hreaches

theorem closed_reaches {extra : Nat} {tag : c.Ahead Tag} (h : c.Reaches tag.cursor) :
    Always (fun a => c.Reaches a.cursor) (closed extra tag) :=
  .bind (fun a ha => (closer_carries (alike_beyond _) extra a ha).1) fun _ ha => .ok (h.trans ha)

end Cursor

theorem Opener.Takes.inBounds {opener : Opener} {s : Slice} (h : opener.Takes source d s)
    (hopener : opener.rest <:+ source.toList) : s.InBounds source := by
  cases h with
  | comment h => exact Span.slice_inBounds hopener List.nil_suffix
  | value h hp hs => exact hs.inBounds (.enter hopener hp)
  | otherwise h hp hword hspace hs =>
    have hc := Cursor.In.enter hopener hp
    exact hs.inBounds (hc.reaches ((Cursor.reaches_of_eat hword).trans (Cursor.reaches_of_skip hspace)))
  | opening h hp hs => exact hs.inBounds (.enter hopener hp)
  | negated h hp ha => exact (Cursor.In.enter hopener hp).slice (Cursor.reaches_of_reference? ha)
  | closing h hp ha => exact (Cursor.In.enter hopener hp).slice (Cursor.reaches_of_names? ha)
  | inclusion h hp ha hs =>
    exact hs.inBounds ((Cursor.In.enter hopener hp).reaches (Cursor.inclusionName_reaches _ ha))
  | rawBody h hp hcall ha hbody =>
    have hc := Cursor.In.enter hopener hp
    have hcall := (Cursor.blockCall_carries (Cursor.alike_beyond _) d _ hcall).1
    have hcloser := (Cursor.closer_carries (Cursor.alike_beyond _) 2 _ ha).1
    exact Span.slice_inBounds (hc.reaches (hcall.trans hcloser)).rest (List.drop_suffix _ _)

theorem Asked.read_suffix (cs : List Char) :
    Always (fun asked => Always (fun r => r.rest <:+ cs) asked.tag) (Asked.read d cs) := by
  unfold Asked.read
  refine .bind (fun p hp => Cursor.enter_reaches hp) fun p hp => ?_
  obtain ⟨c, hc⟩ := p
  refine .bind Cursor.inclusionName_reaches fun a ha => ?_
  obtain ⟨name, e, he⟩ := a
  have hname : (Cursor.inFront cs).Reaches e := hp.trans ha
  refine .ok (.map (p := fun a => e.Reaches a.cursor) ?_ fun a ha => (hname.trans ha).rest_suffix)
  refine .bind (p := fun a => e.Reaches a.cursor) ?_ fun tag => Cursor.closed_reaches
  refine .bind (fun a ha => ?_) fun a ha => .ok ha
  exact ((Cursor.localBelow d _ _ _).arguments (Cursor.alike_beyond _) (Nat.lt_succ_self _) a ha).1

theorem TagRead.rest_suffix {place : Option Branch} {left : Nat} {opener : Opener}
    (hsigil : opener.sigil ≠ .inclusion) :
    Always (fun r => r.rest <:+ opener.rest) (TagRead.read d place left opener) :=
  fun r hr => (local_of_gives hsigil ⟨r, hr, rfl, rfl, rfl⟩).suffix

end

namespace Scan
variable {d : Dialect} {source : String} {s s' : Scan}

def place (source : String) (left : Nat) : List Char := source.toList.drop (source.length - left)

/-- The slices that a round takes: the text up to the next mark, those of the tag there, and for an
error the text before its place, and unless it is in the first line, the part of its line before it. -/
inductive Takes (source : String) (d : Dialect) (s : Scan) : Slice → Prop
  | text : Takes source d s (s.found.slice source)
  | tag {inside : List Char} {slice : Slice} (h : Text.mark s.search = .tag inside)
    (hs : (Opener.read inside).Takes source d slice) : Takes source d s slice
  | before {left : Nat} (h : left ∈ (s.round d).faults) :
    Takes source d s ⟨0, offset source (place source left)⟩
  | line {left : Nat} {front line : List Char} (h : left ∈ (s.round d).faults)
    (hsource : source.toList = front ++ '\n' :: (line ++ place source left)) (hline : '\n' ∉ line) :
    Takes source d s ⟨⟨(offset source ('\n' :: (line ++ place source left))).byteIdx + 1⟩,
      offset source (place source left)⟩

structure Inside (source : String) (s : Scan) : Prop where
  text : s.text <:+ source.toList
  mark : s.mark ≤ source.length

theorem Inside.start (source : String) : (start source).Inside source :=
  ⟨List.suffix_refl _, Nat.zero_le _⟩

theorem opener_suffix {inside : List Char} (h : Text.mark s.search = .tag inside) :
    (Opener.read inside).rest <:+ s.text := by
  have hinside : inside <:+ (Text.Mark.tag inside).chars :=
    (List.suffix_cons _ _).trans (List.suffix_cons _ _)
  exact (Opener.rest_suffix inside).trans (hinside.trans (suffix_of_mark h))

theorem Takes.inBounds {slice : Slice} (h : s.Takes source d slice) (hs : s.Inside source) :
    slice.InBounds source := by
  have hplace (left : Nat) : place source left <:+ source.toList := List.drop_suffix _ _
  cases h with
  | text => exact Span.slice_inBounds hs.text s.found_suffix
  | tag h hslice => exact hslice.inBounds ((opener_suffix h).trans hs.text)
  | before h =>
    have hzero : offset source source.toList = 0 := offset_eq (List.nil_append _)
    rw [← hzero]
    exact Span.slice_inBounds (s := ⟨source.toList, _⟩) (List.suffix_refl _) (hplace _)
  | @line left front line h hsource hline =>
    have hnewline : '\n' :: (line ++ place source left) <:+ source.toList :=
      ⟨front, hsource.symm⟩
    have hslice := Span.slice_inBounds (s := ⟨line ++ place source left, place source left⟩)
      ((List.suffix_cons _ _).trans hnewline) (List.suffix_append _ _)
    unfold Span.slice at hslice
    rwa [offset_cons hnewline] at hslice

theorem next?_onward {pushed : Draft} {mark n m : Nat} {h : m < n} {tag : Except Failure (TagRead m)}
    (hnext : (onward pushed mark h tag).next? = some s') :
    ∃ r, tag = .ok r ∧ s'.text = r.rest ∧ s'.mark = r.mark.getD mark := by
  unfold onward at hnext
  cases tag with
  | error f => cases hnext
  | ok r =>
    dsimp only at hnext
    split at hnext <;> cases hnext
    exact ⟨r, rfl, rfl, rfl⟩

theorem faults_onward {pushed : Draft} {mark n m k : Nat} {h : m < n}
    {tag : Except Failure (TagRead m)} (htag : Within k (TagRead.FaultWithin k) tag) :
    ∀ left ∈ (onward pushed mark h tag).faults, left ≤ k := by
  unfold onward
  cases tag with
  | error f => exact List.forall_mem_singleton.2 htag
  | ok r =>
    have hadd := Draft.add_within htag.tag pushed
    dsimp only
    split
    · next f hf =>
      rw [hf] at hadd
      exact List.forall_mem_singleton.2 hadd
    · exact List.forall_mem_nil _

theorem faults_ofExcept {n k : Nat} {x : Except Failure (List Item)}
    (h : Within k (fun _ => True) x) : ∀ left ∈ (Turn.ofExcept x : Turn n).faults, left ≤ k := by
  cases x with
  | error f => exact List.forall_mem_singleton.2 h
  | ok items => exact List.forall_mem_nil _

section
variable (h : s.Inside source) {inside : List Char} (hmark : Text.mark s.search = .tag inside)
include h

theorem Inside.length_le {cs : List Char} (hcs : cs <:+ s.text) : cs.length ≤ source.length := by
  rw [← String.length_toList]
  exact (hcs.trans h.text).length_le

include hmark

theorem Inside.asked : Within source.length
    (fun asked => asked.left ≤ source.length ∧
      Within source.length (TagRead.FaultWithin source.length) asked.tag)
    (Asked.read d (Opener.read inside).rest) :=
  Asked.read_within (h.length_le (opener_suffix hmark))

theorem Inside.tag (place : Option Branch) :
    Within source.length (TagRead.FaultWithin source.length)
      (TagRead.read d place (inside.length + 2) (Opener.read inside)) :=
  TagRead.read_within (h.length_le (suffix_of_mark hmark)) (h.length_le (opener_suffix hmark))

theorem Inside.onward {pushed : Draft} {n m : Nat} {hlt : m < n} {tag : Except Failure (TagRead m)}
    (htag : Within source.length (TagRead.FaultWithin source.length) tag)
    (hrest : Always (fun r => r.rest <:+ (Opener.read inside).rest) tag)
    (hnext : (onward pushed s.mark hlt tag).next? = some s') :
    s'.Inside source ∧ s'.text <:+ s.text := by
  obtain ⟨r, rfl, htext, hmark'⟩ := next?_onward hnext
  have hsuffix := (hrest r rfl).trans (opener_suffix hmark)
  rw [← htext] at hsuffix
  refine ⟨⟨hsuffix.trans h.text, ?_⟩, hsuffix⟩
  rw [hmark']
  cases hr : r.mark with
  | none => exact h.mark
  | some left => exact htag.mark left hr

end

theorem Inside.faults (h : s.Inside source) : ∀ left ∈ (s.round d).faults, left ≤ source.length := by
  unfold round
  split
  · exact faults_ofExcept (Draft.finish_within h.mark _)
  · exact List.forall_mem_nil _
  · next inside hmark =>
    dsimp only
    split
    · have hread := h.asked (d := d) hmark
      split
      · next hasked =>
        rw [hasked] at hread
        exact List.forall_mem_singleton.2 hread
      · next hasked =>
        rw [hasked] at hread
        exact List.forall_mem_cons.2 ⟨hread.1, faults_onward hread.2⟩
    · exact faults_onward (h.tag hmark _)

/-- A round goes on inside of the source. -/
theorem Inside.next (h : s.Inside source) (hnext : (s.round d).next? = some s') :
    s'.Inside source ∧ s'.text <:+ s.text := by
  unfold round at hnext
  split at hnext
  · cases hfinish : Draft.finish _ _ <;> rw [hfinish] at hnext <;> cases hnext
  · next c rest hmark =>
    cases hnext
    have hsuffix := (List.suffix_cons '\\' (c :: rest)).trans (suffix_of_mark hmark)
    exact ⟨⟨hsuffix.trans h.text, h.mark⟩, hsuffix⟩
  · next inside hmark =>
    dsimp only at hnext
    split at hnext
    · have hread := h.asked (d := d) hmark
      split at hnext
      · cases hnext
      · next asked hasked =>
        rw [hasked] at hread
        exact h.onward hmark hread.2 (Asked.read_suffix _ asked hasked) hnext
    · next hsigil => exact h.onward hmark (h.tag hmark _) (TagRead.rest_suffix hsigil) hnext

/-- A round in which nothing can go wrong: the positions are in order and at characters, the text
position moves on, errors are at places in the source, and every slice can be taken. -/
structure Safe (source : String) (d : Dialect) (s : Scan) : Prop where
  text : (offset source s.text).IsValid source
  search : (offset source s.search).IsValid source
  ordered : offset source s.text ≤ offset source s.search
  advances : ∀ s', (s.round d).next? = some s' → offset source s.text < offset source s'.text
  /-- The text in front of the next mark is made up of slices. -/
  front : String.ofList s.front = String.ofList s.pending ++
    String.Pos.Raw.extract source (s.found.slice source).start (s.found.slice source).stop
  faults : ∀ left ∈ (s.round d).faults, left ≤ source.length
  slices : ∀ slice, s.Takes source d slice → slice.InBounds source

theorem Inside.safe (h : s.Inside source) : s.Safe source d where
  text := isValid_offset h.text
  search := isValid_offset (s.ordered.trans h.text)
  ordered := offset_le source s.ordered
  advances := fun _ hnext => offset_lt h.text (h.next hnext).2 (Turn.lt_of_next? hnext)
  front := by rw [Span.extract_slice h.text s.found_suffix, front, String.ofList_append]
  faults := h.faults
  slices := fun _ hslice => hslice.inBounds h

/-- Every round leaves fewer characters. -/
theorem Inside.rounds (h : s.Inside source) {n : Nat} (hrounds : Rounds d s n s') :
    s'.Inside source ∧ n + s'.text.length ≤ s.text.length := by
  induction hrounds with
  | start => exact ⟨h, Nat.le_of_eq (Nat.zero_add _)⟩
  | next _ hnext ih =>
    obtain ⟨hinside, hle⟩ := ih
    have hlt := Turn.lt_of_next? hnext
    exact ⟨(hinside.next hnext).1, by omega⟩

/-- Reading a source goes round by round to an outcome, and no round can go wrong in taking a slice.
A partial that is asked for and not there makes its round the last one. -/
theorem rounds_safe (d : Dialect) (source : String) :
    (start source).run d = .ofSource d source ∧
      (∃ n last, Rounds d (start source) n last ∧
        (last.round d).result? = some (Outline.ofSource d source).ending) ∧
      ∀ n s, Rounds d (start source) n s → n + s.text.length ≤ source.length ∧ s.Safe source d := by
  refine ⟨run_start d source, ?_, fun n s hrounds => ?_⟩
  · rw [← run_start]
    exact Rounds.exists_last .start
  · obtain ⟨hinside, hle⟩ := (Inside.start source).rounds hrounds
    exact ⟨hle, hinside.safe⟩

def behindBackslash : Scan where
  pending := ['é']
  text := ['ß', '.']
  search := ['.']
  ordered := List.suffix_cons _ _

theorem rounds_safe_backslash :
    Rounds ⟨Builtin.registry, false, false⟩ (start "é\\ß.") 1 behindBackslash ∧
      offset "é\\ß." behindBackslash.text = ⟨3⟩ ∧
      1 + behindBackslash.text.length ≤ "é\\ß.".length ∧
      behindBackslash.Safe "é\\ß." ⟨Builtin.registry, false, false⟩ := by
  have hrounds : Rounds ⟨Builtin.registry, false, false⟩ (start "é\\ß.") 1 behindBackslash :=
    .next .start rfl
  exact ⟨hrounds, by decide, (rounds_safe _ _).2.2 1 _ hrounds⟩

end Scan
end Stencil
