import Stencil.Proofs.Blocks
import Stencil.Proofs.Leading
import Stencil.Proofs.StillOpen

set_option autoImplicit false

/-!
# Heads of blocks in closing tags

A closing tag is read as names. So a block closes by the text of its head if that begins with a name. If
it begins with `this`, a point or an `@`, nothing is read of it, and the block cannot be closed.
-/
namespace Stencil

namespace Cursor
variable {c : Cursor} {d : Dialect} {sigil : Sigil}

/-- Outside of blocks the tag of a section begins with a reference, and its name is the text of that. -/
theorem tag_opening (hsigil : sigil = .opening ∨ sigil = .negated) {a : c.Ahead Tag}
    (h : c.tag d none sigil = .ok a) :
    ∃ call b, a.result = .opening call ∧ c.reference? = .ok b ∧ b.result.isSome = true ∧
      call.name = c.upTo b.cursor ∧ b.cursor.Reaches a.cursor := by
  rcases hsigil with rfl | rfl
  · change Ahead.map Tag.opening <$> c.blockCall d = _ at h
    rw [map_eq_pure_bind] at h
    obtain ⟨block, hblock, h⟩ := bind_eq_ok.1 h
    cases h
    obtain ⟨call, hcall, hblock⟩ := bind_eq_ok.1 hblock
    obtain ⟨_, -, hblock⟩ := bind_eq_ok.1 hblock
    cases hblock
    obtain ⟨head, args, _, hhead, hargs, rfl⟩ := exists_of_call hcall
    obtain ⟨b, r, hb, hr, hcursor, -⟩ := head_always d d.blockFallback head hhead
    have hreaches : b.cursor.Reaches args.cursor := by
      rw [hcursor]
      exact ((localBelow d _ _ _).arguments (alike_beyond head.cursor) (Nat.lt_succ_self _)
        args hargs).1
    exact ⟨_, b, rfl, hb, by rw [hr]; rfl, congrArg c.upTo hcursor.symm, hreaches⟩
  · change c.negatedTag d none = _ at h
    unfold negatedTag at h
    split at h
    · cases h
    · obtain ⟨⟨r, e, he⟩, hr, h⟩ := bind_eq_ok.1 h
      cases r with
      | none => cases h
      | some r =>
        cases h
        exact ⟨_, _, rfl, hr, rfl, rfl, .refl e⟩

theorem exists_opening_of_read (hsigil : sigil = .opening ∨ sigil = .negated) {left : Nat} {trims : Bool}
    {cs : List Char} {r : TagRead cs.length} (hr : TagRead.read d none left ⟨sigil, trims, cs⟩ = .ok r) :
    ∃ call, r.tag = some (.opening call) := by
  have hordinary : sigil.isOrdinary = true := by rcases hsigil with rfl | rfl <;> rfl
  obtain ⟨p, a, -, ha, htag, -⟩ := (TagRead.gives_ordinary hordinary).1 ⟨r, hr, rfl, rfl, rfl⟩
  obtain ⟨tag, htag', ha⟩ := bind_eq_ok.1 ha
  obtain ⟨trims, -, ha⟩ := bind_eq_ok.1 ha
  cases ha
  obtain ⟨call, b, hresult, -⟩ := tag_opening hsigil htag'
  exact ⟨call, htag.symm.trans (congrArg some hresult)⟩

theorem kind_of_reference? {b : c.Ahead (Option Reference)} (h : c.reference? = .ok b)
    (hsome : b.result.isSome = true) (hident : c.token.kind ≠ .ident) :
    c.token.kind = .thisWord ∨ c.token.kind = .dot ∨ c.token.kind = .atSign := by
  by_contra hnot
  obtain ⟨hthis, hdot, hat⟩ : c.token.kind ≠ .thisWord ∧ c.token.kind ≠ .dot ∧
      c.token.kind ≠ .atSign := by simpa using hnot
  rw [reference?_eq_none hat hthis hdot hident] at h
  cases h
  cases hsome

/-- With two characters left of a text that ends in two braces, the first of them is next. -/
theorem Reaches.eq_brace {e : Cursor} {front : List Char} (h : c.Reaches e)
    (hc : c.At (front ++ ['\x7d', '\x7d'])) (hleft : e.left = 2) : e = brace ['\x7d'] := by
  have hsuffix := h.chars_suffix
  rw [hc.chars] at hsuffix
  have hclosing : e.chars = ['\x7d', '\x7d'] :=
    (List.suffix_of_suffix_length_le hsuffix (List.suffix_append _ _)
      (Nat.le_of_eq hleft)).eq_of_length hleft
  have hat := h.at_chars (hc.chars.symm ▸ hc)
  rw [hclosing] at hat
  exact hat.eq (at_brace ['\x7d'])

/-- What is read of the tag of a block with no more than the text of its head in it: the cursor at
the head, and what a reference comes to there. -/
structure HeadOnly (h : List Char) (c : Cursor) (b : c.Ahead (Option Reference)) : Prop where
  at_head : c.At (h ++ ['\x7d', '\x7d'])
  reads : c.reference? = .ok b
  isSome : b.result.isSome = true
  ends : b.cursor = brace ['\x7d']

end Cursor

section
open Cursor
variable {d : Dialect} {sigil : Sigil} {h : List Char} {call : Call Expr} {left : Nat} {after : Bool}

/-- A tag that opens a block with the text in it for its name has nothing else in it. -/
theorem opens_of_gives (hsigil : sigil = .opening ∨ sigil = .negated)
    (hgives : TagRead.Gives (TagRead.read d none left ⟨sigil, false, h ++ ['\x7d', '\x7d']⟩)
      (some (.opening call)) after []) (hname : call.name = String.ofList h) :
    after = false ∧ ∃ p b, enter (h ++ ['\x7d', '\x7d']) = .ok p ∧ HeadOnly h p.1 b := by
  have hordinary : sigil.isOrdinary = true ∧ sigil.extraBraces = 0 := by
    rcases hsigil with rfl | rfl <;> exact ⟨rfl, rfl⟩
  obtain ⟨p, a, hp, ha, htag, rfl, hrest⟩ := (TagRead.gives_ordinary hordinary.1).1 hgives
  obtain ⟨⟨tag, e, he⟩, htag', ha⟩ := bind_eq_ok.1 ha
  obtain ⟨trims, htrims, ha⟩ := bind_eq_ok.1 ha
  cases ha
  obtain ⟨call', b, hopening, hreference, hsome, hname', hreaches⟩ := tag_opening hsigil htag'
  dsimp only at hopening htrims hreaches
  subst hopening
  cases htag
  obtain ⟨hat, hsuffix⟩ := enter_at hp
  have hlength := length_upTo_le p.1 b.cursor
  rw [← hname', hname, String.length_ofList] at hlength
  have hhead := (reference?_carries (alike_beyond p.1) b hreference).1
  have hcloser := closer_left (hreaches.at_chars (hhead.at_chars hat)) htrims
  have htext : (h ++ ['\x7d', '\x7d']).length = h.length + 2 := List.length_append
  have hwhole : p.1.left ≤ (h ++ ['\x7d', '\x7d']).length := hsuffix.length_le
  have hbehind : b.cursor.left ≤ p.1.left := hhead.chars_suffix.length_le
  have hlast : e.left ≤ b.cursor.left := hreaches.chars_suffix.length_le
  have hchars : p.1.chars = h ++ ['\x7d', '\x7d'] := by
    refine hsuffix.eq_of_length ?_
    change p.1.left = (h ++ ['\x7d', '\x7d']).length
    omega
  rw [hchars] at hat
  have hends : b.cursor = brace ['\x7d'] := hhead.eq_brace hat (by omega)
  obtain rfl : e = brace ['\x7d'] := (hhead.trans hreaches).eq_brace hat (by omega)
  obtain ⟨x, hx, htilde, -⟩ := closer_brace []
  rw [hordinary.2] at htrims
  cases htrims.symm.trans hx
  exact ⟨htilde, p, b, hp, hat, hreference, hsome, hends⟩

/-- A closing tag is read as names, if names are the head of the block. -/
theorem gives_closing {p : { c : Cursor // c.rest.length < (h ++ ['\x7d', '\x7d']).length }}
    {b : p.1.Ahead (Option Reference)} (hp : enter (h ++ ['\x7d', '\x7d']) = .ok p)
    (hhead : HeadOnly h p.1 b) (hident : p.1.token.kind = .ident) (place : Option Branch) :
    ∃ left', TagRead.Gives (TagRead.read d place left ⟨.closing, false, h ++ ['\x7d', '\x7d']⟩)
      (some (.closing (String.ofList h) left')) false [] := by
  obtain ⟨⟨path, e, he⟩, hnames, hcursor⟩ := names?_of_reference? hident hhead.reads
  rw [hhead.ends] at hcursor
  dsimp only at hcursor
  subst hcursor
  have hname : p.1.upTo (brace ['\x7d']) = String.ofList h :=
    upTo_eq hhead.at_head (at_brace ['\x7d'])
  obtain ⟨x, hx, htilde, hrest⟩ := closer_brace []
  refine ⟨p.1.left, (TagRead.gives_ordinary rfl).2 ⟨p, _, hp,
    bind_eq_ok.2 ⟨_, bind_eq_ok.2 ⟨_, hnames, rfl⟩, bind_eq_ok.2 ⟨x, hx, rfl⟩⟩, ?_, htilde, hrest⟩⟩
  exact congrArg (fun name => some (Tag.closing name p.1.left)) hname

theorem closing_error {p : { c : Cursor // c.rest.length < (h ++ ['\x7d', '\x7d']).length }}
    {b : p.1.Ahead (Option Reference)} (hp : enter (h ++ ['\x7d', '\x7d']) = .ok p)
    (hhead : HeadOnly h p.1 b) (hident : p.1.token.kind ≠ .ident) (place : Option Branch) :
    TagRead.read d place left ⟨.closing, false, h ++ ['\x7d', '\x7d']⟩ =
      .error ⟨h.length + 2, .unexpectedToken p.1.found⟩ := by
  have hkind := kind_of_reference? hhead.reads hhead.isSome hident
  have hne {kind : TokenKind} (hkind' : kind ≠ .thisWord ∧ kind ≠ .dot ∧ kind ≠ .atSign) :
      p.1.token.kind ≠ kind := by
    rintro rfl
    tauto
  have hleft : p.1.left = h.length + 2 := hhead.at_head.left.trans List.length_append
  have hcloser : p.1.closer 0 = .error ⟨p.1.left, .unexpectedToken p.1.found⟩ := by
    unfold closer
    rw [skip_eq_false (hne (by decide)), ok_bind]
    dsimp only [here]
    rw [skip_eq_false (hne (by decide)), ok_bind]
    dsimp only [here]
    rw [braces, expect, eat_eq_none (hne (by decide)), ok_bind]
    rfl
  rw [TagRead.read_ordinary rfl, hp, ok_bind]
  dsimp only
  change ((p.1.names? >>= _) >>= _) = _
  rw [names?_eq_none hident]
  change (p.1.closer 0 >>= _) >>= _ = _
  rw [hcloser, hleft]
  rfl

end

def sectionTag (mark : Char) (head : List Char) : List Char :=
  '\x7b' :: '\x7b' :: mark :: (head ++ ['\x7d', '\x7d'])

section
variable {d : Dialect} {mark : Char} {head : List Char} {left : Nat}

theorem opener_section (hmark : mark = '#' ∨ mark = '^') :
    ∃ sigil, (sigil = .opening ∨ sigil = .negated) ∧
      ∀ cs, Opener.read (mark :: cs) = ⟨sigil, false, cs⟩ := by
  rcases hmark with rfl | rfl
  · exact ⟨.opening, .inl rfl, fun _ => rfl⟩
  · exact ⟨.negated, .inr rfl, fun _ => rfl⟩

theorem Opener.read_closing_ne (cs : List Char) : (Opener.read ('/' :: cs)).sigil ≠ .inclusion := by
  change Sigil.closing ≠ .inclusion
  decide

theorem exists_opening (hmark : mark = '#' ∨ mark = '^')
    (h : Outline.read d {} false 0 (sectionTag mark head) =
      .failed ⟨left, .blockStillOpen (String.ofList head)⟩) :
    ∃ sigil call, (sigil = .opening ∨ sigil = .negated) ∧
      (∀ cs, Opener.read (mark :: cs) = ⟨sigil, false, cs⟩) ∧ call.name = String.ofList head ∧
      ∃ after, TagRead.Gives (TagRead.read d none ((mark :: (head ++ ['\x7d', '\x7d'])).length + 2)
        ⟨sigil, false, head ++ ['\x7d', '\x7d']⟩) (some (.opening call)) after [] := by
  obtain ⟨sigil, hsigil, hopener⟩ := opener_section hmark
  have hplain : Text.plain (sectionTag mark head) =
      ([], some (mark :: (head ++ ['\x7d', '\x7d']))) := rfl
  have hread := Outline.tag_blockStillOpen hplain h
  rw [hopener] at hread
  obtain ⟨hne, pushed, r, draft', mark', rfl, hr, hadd, hrest⟩ := hread
  obtain ⟨call, htag⟩ := Cursor.exists_opening_of_read hsigil hr
  rw [htag] at hadd
  cases hadd
  have hfits := TagRead.call_le hne hr htag rfl
  have htext : (head ++ ['\x7d', '\x7d']).length = head.length + 2 := List.length_append
  dsimp only at hfits
  rcases Outline.blockStillOpen_le hrest with ⟨other, hother, hname⟩ | hlength
  · obtain rfl := List.mem_singleton.1 hother
    rw [hname, String.length_ofList] at hfits
    have hnil : r.rest = [] := List.eq_nil_of_length_eq_zero (by omega)
    exact ⟨sigil, _, hsigil, hopener, hname, r.trims, r, hr, htag, rfl, hnil⟩
  · rw [String.length_ofList] at hlength
    omega

end

section
variable {d : Dialect} {waiting : Dict String} {shelf shelf' : Shelf} {body : String} {t : Template}
  {mark : Char} {head : List Char} {left : Nat}

/-- Behind the tag of a section, its body is read up to the closing tag. -/
theorem section_leads {sigil : Sigil} {call : Call Expr}
    (hsigil : sigil = .opening ∨ sigil = .negated)
    (hopener : ∀ cs, Opener.read (mark :: cs) = ⟨sigil, false, cs⟩)
    (hgives : TagRead.Gives (TagRead.read d none ((mark :: (head ++ ['\x7d', '\x7d'])).length + 2)
      ⟨sigil, false, head ++ ['\x7d', '\x7d']⟩) (some (.opening call)) false [])
    {cs : List Char} {found : List String × List Item}
    (hscript : (Outline.read d {} false 0 cs).script = some found) (hends : Text.Ends cs) :
    ∃ mark', Outline.Leads found.1
      (Outline.read d {} false 0 (sectionTag mark head ++ (cs ++ sectionTag '/' head)))
      (Outline.read d ⟨[], [{ call, chained := false, body := found.2 }]⟩ false mark'
        (sectionTag '/' head)) := by
  have hne : sigil ≠ .inclusion := by rcases hsigil with rfl | rfl <;> nofun
  have hreads : ReadsTag d none ((mark :: (head ++ ['\x7d', '\x7d'])).length + 2)
      (Opener.read (mark :: (head ++ ['\x7d', '\x7d']))) [] (some (.opening call)) false [] := by
    rw [hopener]
    exact .ordinary hne hgives
  obtain ⟨-, -, tag, hmoved, hmore⟩ := hreads.append (cs ++ sectionTag '/' head)
  obtain rfl : tag = some (.opening call) := by
    cases hmoved with
    | some hmoved =>
      cases hmoved
      rfl
  have hplain : Text.plain (sectionTag mark head ++ (cs ++ sectionTag '/' head)) =
      ([], some (mark :: (head ++ ['\x7d', '\x7d']) ++ (cs ++ sectionTag '/' head))) := rfl
  have hpushed : Draft.pushText (Text.trimIf false (Opener.read
      (mark :: (head ++ ['\x7d', '\x7d']) ++ (cs ++ sectionTag '/' head))).trims []) {} = {} := by
    rw [List.cons_append, hopener]
    rfl
  obtain ⟨mark₁, hfirst⟩ := Outline.leads_tag hplain (by rw [hpushed]; exact hmore)
    (by rw [hpushed]; rfl) 0
  obtain ⟨mark₂, hsecond⟩ := Outline.read_leads hscript hends
    (⟨[], [{ call, chained := false }]⟩ : Draft) (rfl : (Opener.read ('/' :: _)).trims = false) mark₁
  rw [Draft.pushAll_main rfl] at hsecond
  exact ⟨mark₂, hfirst.trans hsecond⟩

section
variable {p : { c : Cursor // c.rest.length < (head ++ ['\x7d', '\x7d']).length }}
  {b : p.1.Ahead (Option Reference)} (hp : Cursor.enter (head ++ ['\x7d', '\x7d']) = .ok p)
  (hhead : Cursor.HeadOnly head p.1 b) (items : List Item) (mark' : Nat)
include hp hhead

theorem read_closing (hident : p.1.token.kind = .ident) {call : Call Expr}
    (hname : call.name = String.ofList head) :
    Outline.read d ⟨[], [{ call, chained := false, body := items }]⟩ false mark'
      (sectionTag '/' head) = .finished [.block ⟨call, items, [], false⟩] := by
  have hplain : Text.plain (sectionTag '/' head) = ([], some ('/' :: (head ++ ['\x7d', '\x7d']))) := rfl
  obtain ⟨left', hgives⟩ := gives_closing hp hhead hident (some .main)
  have hadd : Draft.add (some (.closing (String.ofList head) left'))
      ⟨[], [{ call, chained := false, body := items }]⟩ =
        .ok ⟨[.block ⟨call, items, [], false⟩], []⟩ := by
    unfold Draft.add Draft.addTag OpenBlock.close OpenBlock.closeNamed
    dsimp only
    rw [if_neg Bool.false_ne_true, if_pos hname]
    rfl
  obtain ⟨mark'', hend⟩ := Outline.onward_leads hgives hadd mark'
  rw [Outline.read_at_tag hplain, Outline.atTag_ordinary (Opener.read_closing_ne _)]
  refine hend.trans ?_
  rw [read_none rfl]
  rfl

/-- The word that a head begins with in place of a name is not expected in the closing tag. -/
theorem read_closing_error (hident : p.1.token.kind ≠ .ident) (call : Call Expr) :
    Outline.read d ⟨[], [{ call, chained := false, body := items }]⟩ false mark'
      (sectionTag '/' head) = .failed ⟨head.length + 2, .unexpectedToken p.1.found⟩ := by
  have hplain : Text.plain (sectionTag '/' head) = ([], some ('/' :: (head ++ ['\x7d', '\x7d']))) := rfl
  rw [Outline.read_at_tag hplain, Outline.atTag_ordinary (Opener.read_closing_ne _)]
  exact congrArg (Outline.onward d _ mark') (closing_error hp hhead hident (some .main))

end

/-- A section whose tag only leaves its block open, with a template for its body: if its head begins
with a name, its closing tag closes it. If it begins with `this`, a point or an `@`, that word is not
expected in the closing tag. -/
theorem compile_section (hmark : mark = '#' ∨ mark = '^')
    (hopening : Outline.ofSource d (String.ofList (sectionTag mark head)) =
      .failed ⟨left, .blockStillOpen (String.ofList head)⟩)
    (hbody : (compile d waiting body).run shelf = (.ok t, shelf')) (hends : Text.Ends body.toList) :
    let source := String.ofList (sectionTag mark head) ++ body ++ String.ofList (sectionTag '/' head)
    ∃ word rest, Token.read (head ++ ['\x7d', '\x7d']) = .ok (word, rest) ∧
      ((word.kind = .ident ∧ ∃ call : Call Expr, call.name = String.ofList head ∧
          (compile d waiting source).run shelf =
            (.ok ⟨source, [.block ⟨call, t.items, [], false⟩], t.links⟩, shelf')) ∨
        (word.kind = .thisWord ∨ word.kind = .dot ∨ word.kind = .atSign) ∧
          (compile d waiting source).run shelf =
            (.error (Failure.error source
              ⟨head.length + 2, .unexpectedToken (String.ofList word.text)⟩), shelf')) := by
  intro source
  unfold Outline.ofSource at hopening
  rw [String.toList_ofList] at hopening
  obtain ⟨sigil, call, hsigil, hopener, hname, after, hgives⟩ := exists_opening hmark hopening
  obtain ⟨rfl, p, b, hp, hhead⟩ := opens_of_gives hsigil hgives hname
  obtain ⟨found, hscript, -⟩ := Outline.link_script hbody
  obtain ⟨mark', hleads⟩ := section_leads hsigil hopener hgives hscript hends
  obtain ⟨hitems, hlink⟩ := hleads.link hscript hbody source
  have hsource : source.toList =
      sectionTag mark head ++ (body.toList ++ sectionTag '/' head) := by simp [source]
  rw [← hsource, hitems] at hlink
  change (compile d waiting source).run shelf = _ at hlink
  refine ⟨p.1.token, p.1.rest, hhead.at_head, ?_⟩
  by_cases hident : p.1.token.kind = .ident
  · refine .inl ⟨hident, call, hname, hlink.trans ?_⟩
    rw [read_closing hp hhead t.items mark' hident hname]
    rfl
  · refine .inr ⟨Cursor.kind_of_reference? hhead.reads hhead.isSome hident, hlink.trans ?_⟩
    rw [read_closing_error hp hhead t.items mark' hident]
    rfl

end

/-- A block over `this` is opened, and its closing tag is an error. -/
theorem compile_section_this :
    let d : Dialect := { helpers := Builtin.registry }
    let shelf : Shelf := ⟨{}, ⟨[]⟩, ⟨[]⟩, []⟩
    let head := "this".toList
    let source := String.ofList (sectionTag '#' head) ++ "x" ++ String.ofList (sectionTag '/' head)
    source = "\x7b\x7b#this\x7d\x7dx\x7b\x7b/this\x7d\x7d" ∧
      Outline.ofSource d (String.ofList (sectionTag '#' head)) =
        .failed ⟨1, .blockStillOpen (String.ofList head)⟩ ∧
      (compile d ⟨[]⟩ "x").run shelf = (.ok ⟨"x", [.text "x"], ⟨[]⟩⟩, shelf) ∧
      Text.Ends "x".toList ∧
      (compile d ⟨[]⟩ source).run shelf =
        (.error (.syntaxError ⟨⟨1, 14⟩, .unexpectedToken "this"⟩), shelf) := by
  intro d shelf head source
  have hopening : Outline.ofSource d (String.ofList (sectionTag '#' head)) =
      .failed ⟨1, .blockStillOpen (String.ofList head)⟩ := by cbv
  have hbody : (compile d ⟨[]⟩ "x").run shelf = (.ok ⟨"x", [.text "x"], ⟨[]⟩⟩, shelf) := by cbv
  have hends : Text.Ends "x".toList := by
    intro c hc
    cases hc
    decide
  refine ⟨by decide, hopening, hbody, hends, ?_⟩
  obtain ⟨word, rest, hword, h⟩ := compile_section (.inl rfl) hopening hbody hends
  have hthis : Token.read (head ++ ['\x7d', '\x7d']) =
      .ok (⟨.thisWord, "this".toList⟩, ['\x7d', '\x7d']) := by cbv
  cases hword.symm.trans hthis
  rcases h with ⟨hname, -⟩ | ⟨-, h⟩
  · cases hname
  · have herror : Failure.error source
        ⟨head.length + 2, .unexpectedToken (String.ofList "this".toList)⟩ =
          .syntaxError ⟨⟨1, 14⟩, .unexpectedToken "this"⟩ := by decide
    rwa [herror] at h

end Stencil
