import Stencil.Proofs.TagTexts

set_option autoImplicit false

/-!
# Tags and their variants

Every tag that is read is written in one of three ways: token by token, as a comment, or as a raw block
with its body and closing tag. A variant of a tag has other tildes and other white space in its gaps,
and the body of a raw block is the same once it is trimmed. It is read as the same tag.
-/
namespace Stencil

open Token Cursor

structure RawClosing where
  trimsBefore : Bool
  blanks : List Char
  name : List Char
  blanks' : List Char
  trimsAfter : Bool

namespace RawClosing

def text (r : RawClosing) : List Char :=
  List.replicate 4 '\x7b' ++ tildeIf r.trimsBefore ++ ['/'] ++ r.blanks ++
    RawEnd.fromName r.name r.blanks' r.trimsAfter

structure Valid (r : RawClosing) : Prop where
  blanks : ∀ x ∈ r.blanks, Text.isBlank x = true
  blanks' : ∀ x ∈ r.blanks', Text.isBlank x = true
  name : ∀ x ∈ (r.name ++ r.blanks').head?, Text.isBlank x = false

end RawClosing

inductive TagText
  | code (sigil : Sigil) (before : Bool) (tokens : List Token) (after : Bool)
  | comment (long before : Bool) (text : List Char)
  | raw (before : Bool) (tokens : List Token) (after : Bool) (body : List Char) (closing : RawClosing)

namespace Sigil

def commentOf (long : Bool) : Sigil := if long then .longComment else .comment

def terminator (long : Bool) : List Char := if long then "--\x7d\x7d".toList else "\x7d\x7d".toList

end Sigil

namespace TagText

def sigil : TagText → Sigil
  | code sigil _ _ _ => sigil
  | comment long _ _ => .commentOf long
  | raw _ _ _ _ _ => .raw

def trimsBefore : TagText → Bool
  | code _ before _ _ => before
  | comment _ before _ => before
  | raw before _ _ _ _ => before

def trimsAfter : TagText → Bool
  | code _ _ _ after => after
  | comment _ _ _ => false
  | raw _ _ _ _ closing => closing.trimsAfter

def inside : TagText → List Char
  | code sigil _ tokens after => texts tokens ++ closerText sigil.extraBraces after
  | comment long _ text => text ++ Sigil.terminator long
  | raw _ tokens after body closing => texts tokens ++ (closerText 2 after ++ (body ++ closing.text))

def text (t : TagText) : List Char := t.sigil.marks t.trimsBefore ++ t.inside

/-- Marks are no more than marks, tokens are read as they are, and a comment and the body of a raw
block end where they should. -/
inductive Valid : TagText → Prop
  | code {sigil : Sigil} {before after : Bool} {tokens : List Token}
    (hsigil : sigil.isOrdinary = true ∨ sigil = .inclusion)
    (hfits : sigil.Fits before (texts tokens ++ closerText sigil.extraBraces after))
    (hlexes : Lexes (closerText sigil.extraBraces after) tokens) :
    Valid (.code sigil before tokens after)
  | comment {long before : Bool} {text : List Char}
    (hdashes : long = false → ∀ cs, text ≠ '-' :: '-' :: cs)
    (hend : Text.after? (Sigil.terminator long) (text ++ Sigil.terminator long) = some []) :
    Valid (.comment long before text)
  | raw {before after : Bool} {tokens : List Token} {body : List Char} {closing : RawClosing}
    (hfits : Sigil.Fits .raw before (texts tokens ++ closerText 2 after))
    (hlexes : Lexes (closerText 2 after) tokens) (hclosing : closing.Valid)
    (hname : closing.name = texts (headOf tokens))
    (hbody : rawBody? closing.name (body ++ closing.text) =
      some (body, ⟨closing.trimsBefore, closing.trimsAfter, []⟩)) :
    Valid (.raw before tokens after body closing)

/-- The same tag with white space in its gaps and other tildes. The body of a raw block is the same
once it is trimmed. -/
inductive Variant (d : Dialect) : TagText → TagText → Prop
  | code {sigil : Sigil} {before before' after after' : Bool} {tokens tokens' : List Token}
    (hpadded : Padded d [] tokens tokens') (hkeep : after' = true → after = true ∧ before' = before) :
    Variant d (.code sigil before tokens after) (.code sigil before' tokens' after')
  | comment {long before before' : Bool} {text blanks : List Char}
    (hblanks : ∀ x ∈ blanks, Text.isBlank x = true) :
    Variant d (.comment long before text) (.comment long before' (text ++ blanks))
  | raw {before before' after after' : Bool} {tokens tokens' : List Token} {body body' : List Char}
    {closing closing' : RawClosing} (hpadded : Padded d [] tokens tokens')
    (hkeep : after' = true → after = true ∧ before' = before) (hname : closing'.name = closing.name)
    (hbody : Text.trimIf after' closing'.trimsBefore body' =
      Text.trimIf after closing.trimsBefore body)
    (hclosing : rawBody? closing'.name (body' ++ closing'.text) =
      some (body', ⟨closing'.trimsBefore, closing'.trimsAfter, []⟩)) :
    Variant d (.raw before tokens after body closing) (.raw before' tokens' after' body' closing')

end TagText

/-- White space has no part in it, so any dialect will do for the gaps. -/
theorem Token.Lexes.in_front {tail tail' : List Char} {ts : List Token} (h : Lexes tail ts)
    (htail : EndsTag tail) (htail' : EndsTag tail') : Lexes tail' ts :=
  (Padded.refl (d := { helpers := Builtin.registry }) h []).lexes h htail htail'

theorem Token.endsTag_closer (extra : Nat) (trims : Bool) : EndsTag (closerText extra trims) := by
  have htail := endsTag_closerText extra trims []
  rwa [List.append_nil] at htail

theorem Sigil.fits_comment {long before : Bool} {inside : List Char}
    (h : long = false → ∀ cs, inside ≠ '-' :: '-' :: cs) :
    (Sigil.commentOf long).Fits before inside := by
  cases long with
  | true => exact ⟨nofun, nofun, nofun, nofun⟩
  | false => exact ⟨nofun, nofun, nofun, fun _ => h rfl⟩

theorem Sigil.not_dashes {text more : List Char} (h : ∀ cs, text ≠ '-' :: '-' :: cs)
    (hmore : ∀ x ∈ more.head?, x ≠ '-') (cs : List Char) : text ++ more ≠ '-' :: '-' :: cs := by
  intro heq
  match text, heq with
  | [], heq =>
    obtain rfl : more = '-' :: '-' :: cs := heq
    exact hmore '-' rfl rfl
  | [x], heq =>
    obtain ⟨-, rfl⟩ := List.cons.inj heq
    exact hmore '-' rfl rfl
  | x :: y :: text, heq =>
    injection heq with hx heq
    injection heq with hy heq
    exact h text (by rw [hx, hy])

namespace TagText
variable {d : Dialect} {t t' : TagText}

theorem sigil_ne_comment {sigil : Sigil} (h : sigil.isOrdinary = true ∨ sigil = .inclusion) :
    sigil ≠ .comment := by
  rintro rfl
  rcases h with h | h <;> cases h

theorem Variant.comment_tilde (d : Dialect) (long before before' : Bool) (text : List Char) :
    Variant d (.comment long before text) (.comment long before' text) := by
  have hsame : Variant d (.comment long before text) (.comment long before' (text ++ [])) :=
    .comment (List.forall_mem_nil _)
  rwa [List.append_nil] at hsame

theorem Valid.variant (h : t.Valid) : Variant d t t := by
  cases h with
  | code _ _ hlexes => exact .code (.refl hlexes []) fun h => ⟨h, rfl⟩
  | comment _ _ => exact .comment_tilde d _ _ _ _
  | raw _ hlexes _ _ hbody => exact .raw (.refl hlexes []) (fun h => ⟨h, rfl⟩) rfl rfl hbody

theorem fits_padded {sigil : Sigil} {extra : Nat} {before before' after after' : Bool}
    {tokens tokens' : List Token} (hsigil : sigil ≠ .comment)
    (hfits : sigil.Fits before (texts tokens ++ closerText extra after))
    (hlexes : Lexes (closerText extra after) tokens) (hpadded : Padded d [] tokens tokens')
    (hkeep : after' = true → after = true ∧ before' = before) (rest : List Char) :
    sigil.Fits before' (texts tokens' ++ (closerText extra after' ++ rest)) := by
  rw [← List.append_nil (closerText extra after)] at hfits hlexes
  exact hfits.padded hsigil hlexes hpadded hkeep

theorem Variant.fits (h : Variant d t t') (ht : t.Valid) (rest : List Char) :
    t'.sigil.Fits t'.trimsBefore (t'.inside ++ rest) := by
  cases h with
  | code hpadded hkeep =>
    cases ht with
    | code hsigil hfits hlexes =>
      unfold inside
      rw [List.append_assoc]
      exact fits_padded (sigil_ne_comment hsigil) hfits hlexes hpadded hkeep rest
  | @comment long _ _ text blanks hblanks =>
    cases ht with
    | comment hdashes _ =>
      unfold inside
      rw [List.append_assoc, List.append_assoc]
      refine Sigil.fits_comment fun hlong => Sigil.not_dashes (hdashes hlong) fun x hx => ?_
      subst hlong
      cases blanks with
      | nil =>
        cases hx
        decide
      | cons b blanks =>
        cases hx
        rintro rfl
        exact absurd (hblanks _ List.mem_cons_self) (by decide)
  | raw hpadded hkeep =>
    cases ht with
    | raw hfits hlexes _ _ _ =>
      unfold inside
      rw [List.append_assoc, List.append_assoc]
      exact fits_padded (by decide) hfits hlexes hpadded hkeep _

theorem Variant.read_text (h : Variant d t t') (ht : t.Valid) (rest : List Char) :
    Opener.read (t'.text ++ rest) = ⟨t'.sigil, t'.trimsBefore, t'.inside ++ rest⟩ := by
  unfold text
  rw [List.append_assoc]
  exact Opener.read_marks (h.fits ht rest)

end TagText

namespace Text
variable {mark text blanks rest : List Char}

theorem strip?_eq_none {cs : List Char} (h : ∀ more, cs ≠ mark ++ more) : strip? mark cs = none := by
  cases hstrip : strip? mark cs with
  | none => rfl
  | some rest => exact absurd (strip?_eq_some hstrip) (h rest)

/-- White space in front of a mark that has none in it does not move the mark. -/
theorem after?_blanks (hmark : mark ≠ []) (hblanks : ∀ x ∈ blanks, x ∉ mark) :
    after? mark (blanks ++ mark) = some [] := by
  obtain ⟨m, ms, rfl⟩ := List.exists_cons_of_ne_nil hmark
  induction blanks with
  | nil =>
    have hstrip := strip?_append (m :: ms) []
    rw [List.append_nil] at hstrip
    rw [List.nil_append, after?, hstrip]
  | cons b blanks ih =>
    have hb : strip? (m :: ms) (b :: (blanks ++ m :: ms)) = none :=
      strip?_eq_none fun more heq =>
        hblanks b List.mem_cons_self ((List.cons.inj heq).1 ▸ List.mem_cons_self)
    rw [List.cons_append, after?, hb]
    exact ih fun x hx => hblanks x (List.mem_cons_of_mem _ hx)

theorem after?_padded (hmark : mark ≠ []) (hblanks : ∀ x ∈ blanks, x ∉ mark)
    (h : after? mark (text ++ mark) = some []) :
    after? mark (text ++ (blanks ++ mark)) = some [] := by
  induction text with
  | nil => exact after?_blanks hmark hblanks
  | cons c text ih =>
    rw [List.cons_append, after?] at h
    cases hstrip : strip? mark (c :: (text ++ mark)) with
    | some found =>
      rw [hstrip] at h
      obtain rfl : found = [] := Option.some.inj h
      have hlength := congrArg List.length (strip?_eq_some hstrip)
      simp only [List.length_cons, List.length_append, List.length_nil] at hlength
      omega
    | none =>
      rw [hstrip] at h
      have hinside : ∀ behind, c :: text ++ mark ≠ mark ++ behind := by
        intro behind heq
        rw [← List.cons_append, heq, strip?_append] at hstrip
        cases hstrip
      have hnone : strip? mark (c :: (text ++ (blanks ++ mark))) = none := by
        refine strip?_eq_none fun more heq => ?_
        rw [← List.cons_append] at heq
        rcases List.append_eq_append_iff.1 heq with ⟨behind, hbehind, hmore⟩ |
          ⟨behind, hbehind, -⟩
        · cases blanks with
          | nil => exact hinside more heq
          | cons b blanks =>
            cases behind with
            | nil => exact hinside mark (by rw [hbehind, List.append_nil])
            | cons x behind =>
              obtain rfl : b = x := (List.cons.inj hmore).1
              refine hblanks b List.mem_cons_self (hbehind ▸ ?_)
              exact List.mem_append_right _ List.mem_cons_self
        · exact hinside (behind ++ mark) (by rw [hbehind, List.append_assoc])
      rw [List.cons_append, after?, hnone]
      exact ih h

theorem after?_of_append (hmark : mark ≠ []) (h : after? mark (text ++ (mark ++ rest)) = some rest) :
    after? mark (text ++ mark) = some [] := by
  obtain ⟨found, hfound⟩ : ∃ found, after? mark (text ++ mark) = some found := by
    clear h
    induction text with
    | nil => exact ⟨[], after?_blanks hmark (List.forall_mem_nil _)⟩
    | cons c text ih =>
      rw [List.cons_append, after?]
      split
      · exact ⟨_, rfl⟩
      · exact ih
  have hmore := (after?_append hfound rest).2
  rw [List.append_assoc, h] at hmore
  obtain rfl : found = [] := List.append_left_eq_self.1 (Option.some.inj hmore).symm
  exact hfound

end Text

theorem RawClosing.Valid.written {r : RawClosing} (h : r.Valid) :
    RawEnd.Written r.name r.trimsBefore r.trimsAfter r.text := by
  refine .mk h.blanks h.blanks' fun x hx => ?_
  unfold RawEnd.fromName at hx
  rw [List.append_assoc, List.head?_append] at hx
  cases hhead : (r.name ++ r.blanks').head? with
  | some y =>
    rw [hhead] at hx
    cases hx
    exact h.name x hhead
  | none =>
    rw [hhead] at hx
    obtain ⟨y, rest, hy, -, hblank⟩ := (endsTag_closer 2 r.trimsAfter).breaks
    change x ∈ (closerText 2 r.trimsAfter).head? at hx
    rw [hy] at hx
    cases hx
    exact hblank

theorem RawEnd.Written.exists_closing {name text : List Char} {trimsBefore trimsAfter : Bool}
    (h : Written name trimsBefore trimsAfter text) :
    ∃ r : RawClosing, r.Valid ∧ r.text = text ∧ r.name = name ∧ r.trimsBefore = trimsBefore ∧
      r.trimsAfter = trimsAfter := by
  obtain ⟨hbefore, hafter, hname⟩ := h
  refine ⟨⟨trimsBefore, _, name, _, trimsAfter⟩, ⟨hbefore, hafter, fun x hx => hname x ?_⟩, rfl, rfl,
    rfl, rfl⟩
  unfold fromName
  rw [List.append_assoc, List.head?_append, hx]
  rfl

/-- A closing tag behind a body is found without what stands behind it. -/
theorem rawBody?_of_append {name body text rest : List Char} {trimsBefore trimsAfter : Bool}
    (hwritten : RawEnd.Written name trimsBefore trimsAfter text)
    (h : rawBody? name (body ++ (text ++ rest)) = some (body, ⟨trimsBefore, trimsAfter, rest⟩)) :
    rawBody? name (body ++ text) = some (body, ⟨trimsBefore, trimsAfter, []⟩) := by
  obtain ⟨⟨body', closer⟩, hfound⟩ : ∃ found, rawBody? name (body ++ text) = some found := by
    clear h
    induction body with
    | nil => exact ⟨_, hwritten.rawBody?_nil⟩
    | cons c body ih =>
      obtain ⟨found, hfound⟩ := ih
      unfold rawBody?
      split
      · exact ⟨_, rfl⟩
      · exact ⟨_, congrArg (Option.map _) hfound⟩
  have hmore := (rawBody?_append hfound rest).2
  rw [List.append_assoc, h] at hmore
  obtain ⟨rfl, hcloser⟩ := Prod.mk.inj (Option.some.inj hmore)
  obtain ⟨before, after, rest'⟩ := closer
  obtain ⟨rfl, rfl, hrest⟩ := RawEnd.mk.inj hcloser
  obtain rfl : rest' = [] := List.append_left_eq_self.1 hrest.symm
  exact hfound

theorem Sigil.terminator_ne_nil (long : Bool) : terminator long ≠ [] := by
  cases long <;> decide

theorem Sigil.not_mem_terminator {x : Char} (hx : Text.isBlank x = true) (long : Bool) :
    x ∉ terminator long := by
  have hmarks : ∀ y ∈ terminator long, y = '-' ∨ y = '\x7d' := by
    cases long with
    | true =>
      change ∀ y ∈ ['-', '-', '\x7d', '\x7d'], _
      simp
    | false =>
      change ∀ y ∈ ['\x7d', '\x7d'], _
      simp
  intro hmem
  rcases hmarks x hmem with rfl | rfl
  · exact absurd hx (by decide)
  · exact absurd hx (by decide)

/-- What is read of a tag from behind its marks on: the partials asked for, the tag, whether the text
behind it is trimmed, and that text. -/
inductive ReadsTag (d : Dialect) (place : Option Branch) (left : Nat) (opener : Opener) :
    List String → Option Tag → Bool → List Char → Prop
  | ordinary {tag : Option Tag} {after : Bool} {rest : List Char} (hsigil : opener.sigil ≠ .inclusion)
    (h : TagRead.Gives (TagRead.read d place left opener) tag after rest) :
    ReadsTag d place left opener [] tag after rest
  | inclusion {name : String} {tag : Option Tag} {after : Bool} {rest : List Char}
    (hsigil : opener.sigil = .inclusion)
    (h : Asked.Gives (· == name) (Asked.read d opener.rest) tag after rest) :
    ReadsTag d place left opener [name] tag after rest

namespace TagText
variable {d : Dialect} {place : Option Branch} {left : Nat} {rest r : List Char} {names : List String}
  {tag : Option Tag} {a before after after' : Bool} {t t' : TagText} {tokens tokens' : List Token}

theorem reads_ordinary {sigil : Sigil} (hsigil : sigil.isOrdinary = true)
    (hlexes : Lexes (closerText sigil.extraBraces after) tokens) (hpadded : Padded d [] tokens tokens')
    (h : TagRead.Gives (TagRead.read d place left
      ⟨sigil, before, texts tokens ++ (closerText sigil.extraBraces after ++ rest)⟩) tag a r)
    (left' : Nat) (before' after' : Bool) (rest' : List Char) :
    a = after ∧ r = rest ∧ ∃ tag', Option.Rel Tag.Moved tag tag' ∧
      TagRead.Gives (TagRead.read d place left'
        ⟨sigil, before', texts tokens' ++ (closerText sigil.extraBraces after' ++ rest')⟩)
        tag' after' rest' := by
  obtain ⟨p, x, hp, hx, rfl, rfl, rfl⟩ := (TagRead.gives_ordinary hsigil).1 h
  have htail := endsTag_closerText sigil.extraBraces after rest
  obtain ⟨hafter, hrest, q, y, hq, hy, hmoved, hafter', hrest'⟩ :=
    enclosed_follows (uniform_tag d place sigil) (hlexes.in_front (endsTag_closer _ _) htail)
      hpadded hp hx
  exact ⟨hafter, hrest, _, .some hmoved,
    (TagRead.gives_ordinary hsigil).2 ⟨q, y, hq, hy, rfl, hafter', hrest'⟩⟩

theorem reads_inclusion {name : String} (hlexes : Lexes (closerText 0 after) tokens)
    (hpadded : Padded d [] tokens tokens')
    (h : Asked.Gives (· == name) (Asked.read d (texts tokens ++ (closerText 0 after ++ rest))) tag a r)
    (after' : Bool) (rest' : List Char) :
    a = after ∧ r = rest ∧ Asked.Gives (· == name)
      (Asked.read d (texts tokens' ++ (closerText 0 after' ++ rest'))) tag after' rest' := by
  obtain ⟨p, x, i, hp, hx, hi, hname, rfl, rfl, rfl⟩ := Asked.gives_iff.1 h
  have htail := endsTag_closerText 0 after rest
  obtain ⟨hafter, hrest, q, y, hq, hy, heq, hafter', hrest'⟩ :=
    enclosed_follows (uniform_inclusion d) (hlexes.in_front (endsTag_closer _ _) htail) hpadded hp hx
  exact ⟨hafter, hrest, Asked.gives_iff.2
    ⟨q, y, i, hq, hy, heq ▸ hi, hname, congrArg some heq.symm, hafter', hrest'⟩⟩

theorem reads_comment {long : Bool} {cs cs' : List Char}
    (hend : Text.after? (Sigil.terminator long) cs = some [])
    (hend' : Text.after? (Sigil.terminator long) cs' = some [])
    (h : TagRead.Gives (TagRead.read d place left ⟨Sigil.commentOf long, before, cs ++ rest⟩) tag a r)
    (left' : Nat) (before' : Bool) (rest' : List Char) :
    a = false ∧ r = rest ∧
      TagRead.Gives (TagRead.read d place left' ⟨Sigil.commentOf long, before', cs' ++ rest'⟩) tag
        false rest' := by
  have hread (left : Nat) (before : Bool) (cs : List Char) :
      TagRead.read d place left ⟨Sigil.commentOf long, before, cs⟩ =
        TagRead.comment left (Sigil.terminator long) cs := by
    cases long <;> rfl
  rw [hread] at h ⊢
  obtain ⟨hafter, rfl, rfl⟩ := TagRead.gives_comment.1 h
  have hmore := (Text.after?_append hend rest).2
  rw [hafter] at hmore
  exact ⟨rfl, Option.some.inj hmore,
    TagRead.gives_comment.2 ⟨(Text.after?_append hend' rest').2, rfl, rfl⟩⟩

theorem reads_raw {body body' : List Char} {closing closing' : RawClosing}
    (hlexes : Lexes (closerText 2 after) tokens) (hname : closing.name = texts (headOf tokens))
    (hfound : rawBody? closing.name (body ++ closing.text) =
      some (body, ⟨closing.trimsBefore, closing.trimsAfter, []⟩))
    (hpadded : Padded d [] tokens tokens') (hsame : closing'.name = closing.name)
    (hbody : Text.trimIf after' closing'.trimsBefore body' =
      Text.trimIf after closing.trimsBefore body)
    (hfound' : rawBody? closing'.name (body' ++ closing'.text) =
      some (body', ⟨closing'.trimsBefore, closing'.trimsAfter, []⟩))
    (h : TagRead.Gives (TagRead.read d place left
      ⟨.raw, before, texts tokens ++ (closerText 2 after ++ (body ++ closing.text ++ rest))⟩) tag a r)
    (left' : Nat) (before' : Bool) (rest' : List Char) :
    a = closing.trimsAfter ∧ r = rest ∧ TagRead.Gives (TagRead.read d place left'
      ⟨.raw, before', texts tokens' ++ (closerText 2 after' ++ (body' ++ closing'.text ++ rest'))⟩)
      tag closing'.trimsAfter rest' := by
  obtain ⟨p, x, found, closer, hp, hx, hclosing, rfl, rfl, rfl⟩ := TagRead.gives_raw.1 h
  have htail := endsTag_closerText 2 after (body ++ closing.text ++ rest)
  have hmore := hlexes.in_front (endsTag_closer _ _) htail
  have hcall : x.result.1.name.toList = closing.name := by
    rw [blockCall_name htail hmore rfl hp hx, String.toList_ofList, hname]
  obtain ⟨hafter, hrest, q, y, hq, hy, heq, hafter', hrest'⟩ :=
    enclosed_follows (uniform_blockCall d) hmore hpadded hp hx
  rw [hcall, hrest, (rawBody?_append hfound rest).2] at hclosing
  obtain ⟨rfl, rfl⟩ := Prod.mk.inj (Option.some.inj hclosing)
  have hclosing' : rawBody? y.result.1.name.toList y.cursor.rest =
      some (body', ⟨closing'.trimsBefore, closing'.trimsAfter, [] ++ rest'⟩) := by
    rw [← heq, hcall, ← hsame, hrest', (rawBody?_append hfound' rest').2]
  refine ⟨rfl, rfl, TagRead.gives_raw.2 ⟨q, y, body', _, hq, hy, hclosing', ?_, rfl, rfl⟩⟩
  rw [hafter, hafter', ← heq]
  exact congrArg (fun body => some (Tag.raw x.result.1 body)) hbody

/-- A variant of a tag is read as the tag, wherever they stand. -/
theorem Variant.reads (h : Variant d t t') (ht : t.Valid)
    (hread : ReadsTag d place left ⟨t.sigil, t.trimsBefore, t.inside ++ rest⟩ names tag a r)
    (left' : Nat) (rest' : List Char) :
    a = t.trimsAfter ∧ r = rest ∧ ∃ tag', Option.Rel Tag.Moved tag tag' ∧
      ReadsTag d place left' ⟨t'.sigil, t'.trimsBefore, t'.inside ++ rest'⟩ names tag'
        t'.trimsAfter rest' := by
  cases h with
  | @code sigil before before' after after' tokens tokens' hpadded hkeep =>
    unfold inside at hread ⊢
    rw [List.append_assoc] at hread ⊢
    cases ht with
    | code hsigil hfits hlexes =>
      rcases hsigil with hordinary | rfl
      · cases hread with
        | ordinary hne h =>
          obtain ⟨hafter, hrest, tag', hmoved, hgives⟩ :=
            reads_ordinary hordinary hlexes hpadded h left' before' after' rest'
          exact ⟨hafter, hrest, tag', hmoved, .ordinary hne hgives⟩
        | inclusion heq h => exact absurd heq (ne_inclusion hordinary)
      · cases hread with
        | ordinary hne h => exact absurd rfl hne
        | inclusion heq h =>
          obtain ⟨hafter, hrest, hgives⟩ := reads_inclusion hlexes hpadded h after' rest'
          exact ⟨hafter, hrest, tag, Tag.Moved.rel_refl tag, .inclusion heq hgives⟩
  | @comment long before before' text blanks hblanks =>
    cases ht with
    | comment hdashes hend =>
      cases hread with
      | ordinary hne h =>
        have hend' := Text.after?_padded (Sigil.terminator_ne_nil long)
          (fun x hx => Sigil.not_mem_terminator (hblanks x hx) long) hend
        rw [← List.append_assoc] at hend'
        obtain ⟨hafter, hrest, hgives⟩ := reads_comment hend hend' h left' before' rest'
        exact ⟨hafter, hrest, tag, Tag.Moved.rel_refl tag, .ordinary hne hgives⟩
      | inclusion heq h => cases long <;> cases heq
  | @raw before before' after after' tokens tokens' body body' closing closing' hpadded hkeep hsame hbody
      hfound' =>
    unfold inside at hread ⊢
    rw [List.append_assoc, List.append_assoc] at hread ⊢
    cases ht with
    | raw hfits hlexes hclosing hname hfound =>
      cases hread with
      | ordinary hne h =>
        obtain ⟨hafter, hrest, hgives⟩ :=
          reads_raw hlexes hname hfound hpadded hsame hbody hfound' h left' before' rest'
        exact ⟨hafter, hrest, tag, Tag.Moved.rel_refl tag, .ordinary hne hgives⟩
      | inclusion heq h => cases heq

section
variable {sigil : Sigil} {cs : List Char}
  (hread : Opener.read (sigil.marks before ++ cs) = ⟨sigil, before, cs⟩)

include hread in
theorem valid_tokens (hsigil : sigil ≠ .comment) {extra : Nat}
    (hcs : cs = texts tokens ++ (closerText extra after ++ rest))
    (hlexes : Lexes (closerText extra after ++ rest) tokens) :
    sigil.Fits before (texts tokens ++ closerText extra after) ∧
      Lexes (closerText extra after) tokens := by
  have htail := endsTag_closerText extra after rest
  have hfits : sigil.Fits before cs :=
    Opener.fits_of_read hread fun _ => hcs ▸ hlexes.head_ne_brace htail
  subst hcs
  have hshort : sigil.Fits before (texts tokens ++ (closerText extra after ++ [])) :=
    hfits.padded (d := { helpers := Builtin.registry }) hsigil hlexes (.refl hlexes [])
      fun h => ⟨h, rfl⟩
  rw [List.append_nil] at hshort
  exact ⟨hshort, hlexes.in_front htail (endsTag_closer extra after)⟩

include hread in
theorem exists_ordinary (hsigil : sigil.isOrdinary = true)
    (h : TagRead.Gives (TagRead.read d place left ⟨sigil, before, cs⟩) tag after rest) :
    ∃ t : TagText, t.Valid ∧ t.text ++ rest = sigil.marks before ++ cs ∧ t.trimsAfter = after := by
  obtain ⟨p, x, hp, hx, -, rfl, rfl⟩ := (TagRead.gives_ordinary hsigil).1 h
  obtain ⟨ts, hcs, hlexes⟩ := exists_tokens (uniform_tag d place sigil) hp hx
  obtain ⟨hfits, hshort⟩ := valid_tokens hread (sigil_ne_comment (.inl hsigil)) hcs hlexes
  refine ⟨_, .code (.inl hsigil) hfits hshort, ?_, rfl⟩
  conv_rhs => rw [hcs]
  simp only [text, inside, List.append_assoc]
  rfl

include hread in
theorem exists_inclusion (hsigil : sigil = .inclusion) {name : String}
    (h : Asked.Gives (· == name) (Asked.read d cs) tag after rest) :
    ∃ t : TagText, t.Valid ∧ t.text ++ rest = sigil.marks before ++ cs ∧ t.trimsAfter = after := by
  obtain ⟨p, x, i, hp, hx, -, -, -, rfl, rfl⟩ := Asked.gives_iff.1 h
  obtain ⟨ts, hcs, hlexes⟩ := exists_tokens (uniform_inclusion d) hp hx
  subst hsigil
  obtain ⟨hfits, hshort⟩ := valid_tokens hread (by decide) hcs hlexes
  refine ⟨_, .code (.inr rfl) hfits hshort, ?_, rfl⟩
  conv_rhs => rw [hcs]
  simp only [text, inside, List.append_assoc]
  rfl

include hread in
theorem exists_comment (long : Bool) (hsigil : sigil = Sigil.commentOf long)
    (h : TagRead.Gives (TagRead.comment left (Sigil.terminator long) cs) tag after rest) :
    ∃ t : TagText, t.Valid ∧ t.text ++ rest = sigil.marks before ++ cs ∧ t.trimsAfter = after := by
  obtain ⟨hafter, -, rfl⟩ := TagRead.gives_comment.1 h
  obtain ⟨front, rfl⟩ := (Text.after?_append hafter []).1
  have hend := Text.after?_of_append (Sigil.terminator_ne_nil long) hafter
  refine ⟨.comment long before front, .comment (fun hlong ds hfront => ?_) hend, ?_, rfl⟩
  · subst hlong hsigil hfront
    exact (Opener.fits_of_read hread fun hmem => absurd hmem (by decide)).dashes rfl _ rfl
  · subst hsigil
    simp only [text, inside, List.append_assoc]
    rfl

include hread in
theorem exists_raw (hsigil : sigil = .raw)
    (h : TagRead.Gives (TagRead.read d place left ⟨.raw, before, cs⟩) tag after rest) :
    ∃ t : TagText, t.Valid ∧ t.text ++ rest = sigil.marks before ++ cs ∧ t.trimsAfter = after := by
  obtain ⟨p, x, body, closer, hp, hx, hbody, -, rfl, rfl⟩ := TagRead.gives_raw.1 h
  obtain ⟨ts, hcs, hlexes⟩ := exists_tokens (uniform_blockCall d) hp hx
  subst hsigil
  obtain ⟨hfits, hshort⟩ := valid_tokens hread (by decide) hcs hlexes
  obtain ⟨closingText, hwritten, hbehind⟩ := (rawBody?_append hbody []).1
  have hname : x.result.1.name.toList = texts (headOf ts) := by
    rw [blockCall_name (endsTag_closerText _ _ _) hlexes hcs hp hx, String.toList_ofList]
  rw [hbehind] at hbody
  have hfound := rawBody?_of_append hwritten hbody
  obtain ⟨closing, hclosing, rfl, hclosingName, hbefore, hafter⟩ := hwritten.exists_closing
  rw [← hclosingName, ← hbefore, ← hafter] at hfound
  refine ⟨_, .raw hfits hshort hclosing (hclosingName.trans hname) hfound, ?_, hafter⟩
  conv_rhs => rw [hcs, hbehind]
  simp only [text, inside, List.append_assoc]
  rfl

end

theorem exists_of_reads {inside : List Char}
    (h : ReadsTag d place left (Opener.read inside) names tag after rest) :
    ∃ t : TagText, t.Valid ∧ inside = t.text ++ rest ∧ t.trimsAfter = after := by
  have hmarks := Opener.marks_append inside
  obtain ⟨⟨sigil, before, cs⟩, hread⟩ : ∃ opener, Opener.read inside = opener := ⟨_, rfl⟩
  rw [hread] at h hmarks
  subst hmarks
  suffices htext : ∃ t : TagText, t.Valid ∧ t.text ++ rest = sigil.marks before ++ cs ∧
      t.trimsAfter = after by
    obtain ⟨t, ht, htext, hafter⟩ := htext
    exact ⟨t, ht, htext.symm, hafter⟩
  cases h with
  | inclusion hsigil h => exact exists_inclusion hread hsigil h
  | ordinary hsigil h =>
    cases sigil with
    | inclusion => exact absurd rfl hsigil
    | raw => exact exists_raw hread rfl h
    | comment => exact exists_comment hread false rfl h
    | longComment => exact exists_comment hread true rfl h
    | _ => exact exists_ordinary hread rfl h

end TagText
end Stencil
