import Stencil.Proofs.Concatenation
import Stencil.Proofs.Exchange

set_option autoImplicit false

/-!
# Spots in a source

Where a tag may begin in a source, a whole block may stand. What is in front of it has no part in how
the block is read, and nothing else of the template depends on which block it is. In the same way a
template is read wherever its text stands between tags.
-/
namespace Stencil

namespace Cursor
variable {tail more : List Char} {c c' : Cursor}

theorem inclusionName_carries (hc : Alike tail more c c') :
    Carries tail more c Eq c.inclusionName c'.inclusionName := by
  unfold inclusionName names
  refine .map hc ?_ _
  apply Carries.bind hc (names?_carries hc)
  intro path d d' _ _ hd
  cases path with
  | none => exact .error
  | some path => exact .done hd fun _ => rfl

def inclusion (dialect : Dialect) (c : Cursor) : Except Failure (c.Ahead Tag) := do
  let name ← c.inclusionName
  return name.goOn (← name.cursor.inclusionTag dialect name.result)

theorem inclusion_carries (hc : Alike tail more c c') (dialect : Dialect) :
    Carries tail more c Eq (c.inclusion dialect) (c'.inclusion dialect) := by
  unfold inclusion inclusionTag
  apply Carries.bind hc (inclusionName_carries hc)
  intro name d d' _ _ hd
  dsimp only
  rw [bind_assoc, bind_assoc]
  apply Carries.bind hd ((localBelow dialect tail more _).arguments hd (Nat.lt_succ_self _))
  intro args e e' _ _ he
  exact .done he fun _ => rfl

end Cursor

def Tag.IsOtherwise : Tag → Prop
  | .otherwise | .otherwiseOpening _ => True
  | _ => False

def Asked.Gives {n : Nat} (known : String → Bool) (x : Except Failure (Asked n)) (tag : Option Tag)
    (after : Bool) (rest : List Char) : Prop :=
  ∃ asked, x = .ok asked ∧ known asked.name = true ∧ TagRead.Gives asked.tag tag after rest

section
open Cursor

/-- The name of the partial is in the tag, so the tag can be read at once. -/
theorem Asked.gives_iff {known : String → Bool} {d : Dialect} {cs rest : List Char}
    {tag : Option Tag} {after : Bool} :
    Asked.Gives known (Asked.read d cs) tag after rest ↔
      ∃ p a i, enter cs = .ok p ∧ enclosed 0 (p.1.inclusion d) = .ok a ∧
        a.result.1 = .inclusion i ∧ known i.name = true ∧ some a.result.1 = tag ∧
        a.result.2 = after ∧ a.cursor.rest = rest := by
  constructor
  · rintro ⟨asked, hread, hknown, r, hr, rfl, rfl, rfl⟩
    obtain ⟨p, hp, hread⟩ := bind_eq_ok.1 hread
    obtain ⟨name, hname, hread⟩ := bind_eq_ok.1 hread
    cases hread
    dsimp only at hr
    rw [map_eq_pure_bind] at hr
    obtain ⟨b, hb, hr⟩ := bind_eq_ok.1 hr
    cases hr
    obtain ⟨t, ht, hb⟩ := bind_eq_ok.1 hb
    obtain ⟨trims, htrims, hb⟩ := bind_eq_ok.1 hb
    cases hb
    obtain ⟨args, hargs, hargs'⟩ := bind_eq_ok.1 ht
    cases hargs'
    exact ⟨p, _, _, hp, bind_eq_ok.2 ⟨_, bind_eq_ok.2 ⟨name, hname, bind_eq_ok.2 ⟨_, ht, rfl⟩⟩,
      bind_eq_ok.2 ⟨trims, htrims, rfl⟩⟩, rfl, hknown, rfl, rfl, rfl⟩
  · rintro ⟨p, a, i, hp, ha, hi, hknown, rfl, rfl, rfl⟩
    obtain ⟨t, ht, ha⟩ := bind_eq_ok.1 ha
    obtain ⟨trims, htrims, ha⟩ := bind_eq_ok.1 ha
    cases ha
    obtain ⟨name, hname, ht⟩ := bind_eq_ok.1 ht
    obtain ⟨t', ht', ht⟩ := bind_eq_ok.1 ht
    cases ht
    have hclosed : (name.cursor.inclusionTag d name.result >>= closed 0) =
        .ok (t'.goOn (trims.map fun trims => (t'.result, trims))) :=
      bind_eq_ok.2 ⟨t', ht', bind_eq_ok.2 ⟨trims, htrims, rfl⟩⟩
    obtain ⟨args, hargs, hargs'⟩ := bind_eq_ok.1 ht'
    cases hargs'
    cases hi
    exact ⟨_, bind_eq_ok.2 ⟨p, hp, bind_eq_ok.2 ⟨name, hname, rfl⟩⟩, hknown, _,
      congrArg (TagRead.ofAhead _ <$> ·) hclosed, rfl, rfl, rfl⟩

/-- An inclusion is in the text, and what stands behind it has no part in it. -/
theorem Asked.local_of_gives {known : String → Bool} {d : Dialect} {cs rest : List Char}
    {tag : Option Tag} {after : Bool} (h : Asked.Gives known (Asked.read d cs) tag after rest) :
    rest <:+ cs ∧ '\x7d' ∈ cs ∧ (after = true → '~' ∈ cs) ∧
      ∀ more, Asked.Gives known (Asked.read d (cs ++ more)) tag after (rest ++ more) := by
  obtain ⟨p, a, i, hp, ha, hi, hknown, rfl, rfl, rfl⟩ := Asked.gives_iff.1 h
  have hlocal := Cursor.enter_local (fun _ => rfl) (F := fun e => e.inclusion d)
    (fun hc => Cursor.inclusion_carries hc d) hp ha
  refine ⟨(List.suffix_cons _ _).trans hlocal.suffix, hlocal.suffix.mem List.mem_cons_self,
    hlocal.tilde, fun more => ?_⟩
  obtain ⟨q, b, hq, hb, hr, htrims, hrest⟩ := hlocal.append more
  exact Asked.gives_iff.2 ⟨q, b, i, hq, hb, hr ▸ hi, hknown, by rw [hr], htrims, hrest⟩

theorem Asked.ne_otherwise {known : String → Bool} {d : Dialect} {cs rest : List Char}
    {tag : Option Tag} {after : Bool} (h : Asked.Gives known (Asked.read d cs) tag after rest) :
    ∀ t, tag = some t → ¬ t.IsOtherwise := by
  obtain ⟨p, a, i, -, -, hi, -, rfl, -⟩ := Asked.gives_iff.1 h
  rintro _ ⟨⟩
  rw [hi]
  exact id

end

/-- What is read of a tag from behind its two braces on: the tag, whether the text behind it is
trimmed, and that text. A partial that it includes is known. -/
inductive TagAt (c : Catalog) (place : Option Branch) (inside : List Char) (tag : Option Tag)
    (after : Bool) (rest : List Char) : Prop
  | ordinary (hsigil : (Opener.read inside).sigil ≠ .inclusion)
    (h : TagRead.Gives
      (TagRead.read c.dialect place (inside.length + 2) (Opener.read inside)) tag after rest)
  | inclusion (hsigil : (Opener.read inside).sigil = .inclusion)
    (h : Asked.Gives c.known (Asked.read c.dialect (Opener.read inside).rest) tag after rest)

namespace Cursor
variable {dialect : Dialect} {c : Cursor}

theorem valueTag_ne_otherwise (escape : Bool) :
    Always (fun a => ¬ a.result.IsOtherwise) (c.valueTag dialect escape) :=
  .map .trivial fun _ _ => id

/-- Outside of blocks, what is read is no else marker, and the same tag inside of blocks. -/
theorem escapedTag_none {a : c.Ahead Tag} (h : c.escapedTag dialect none = .ok a)
    (place : Option Branch) :
    c.escapedTag dialect place = .ok a ∧ ¬ a.result.IsOtherwise := by
  unfold escapedTag at h ⊢
  obtain ⟨word, hword, h⟩ := bind_eq_ok.1 h
  cases word with
  | none =>
    rw [hword, ok_bind]
    exact ⟨h, valueTag_ne_otherwise true a h⟩
  | some past =>
    dsimp only at h
    rw [if_neg nofun] at h
    obtain ⟨space, -, h⟩ := bind_eq_ok.1 h
    split at h <;> cases h

theorem negatedTag_none {a : c.Ahead Tag} (h : c.negatedTag dialect none = .ok a)
    (place : Option Branch) :
    c.negatedTag dialect place = .ok a ∧ ¬ a.result.IsOtherwise := by
  unfold negatedTag at h ⊢
  split at h
  · cases h
  · next hcloser =>
    rw [if_neg hcloser]
    refine ⟨h, ?_⟩
    obtain ⟨⟨r, d, hd⟩, -, h⟩ := bind_eq_ok.1 h
    cases r with
    | none => cases h
    | some r =>
      cases h
      exact id

theorem tag_none {sigil : Sigil} {a : c.Ahead Tag} (h : c.tag dialect none sigil = .ok a)
    (place : Option Branch) : c.tag dialect place sigil = .ok a ∧ ¬ a.result.IsOtherwise := by
  have hopening : Always (fun a : c.Ahead Tag => ¬ a.result.IsOtherwise)
      (Ahead.map Tag.opening <$> c.blockCall dialect) := .map .trivial fun _ _ => id
  have hclosing : Always (fun a => ¬ a.result.IsOtherwise) c.closingTag :=
    .bind .trivial fun _ _ => .ok id
  cases sigil with
  | unescaped | triple => exact ⟨h, valueTag_ne_otherwise false a h⟩
  | opening => exact ⟨h, hopening a h⟩
  | negated => exact negatedTag_none h place
  | closing => exact ⟨h, hclosing a h⟩
  | _ => exact escapedTag_none h place

end Cursor

namespace TagAt
variable {c : Catalog} {place : Option Branch} {inside rest : List Char} {tag : Option Tag}
  {after : Bool}

structure Local (c : Catalog) (place : Option Branch) (inside : List Char) (tag : Option Tag)
    (after : Bool) (rest : List Char) : Prop where
  suffix : rest <:+ (Opener.read inside).rest
  brace : '\x7d' ∈ (Opener.read inside).rest
  tilde : after = true → '~' ∈ (Opener.read inside).rest
  append : ∀ more, ∃ tag', Option.Rel Tag.Moved tag tag' ∧
    TagAt c place (inside ++ more) tag' after (rest ++ more)

theorem isLocal (h : TagAt c place inside tag after rest) : Local c place inside tag after rest := by
  cases h with
  | ordinary hsigil h =>
    obtain ⟨hsuffix, hbrace, htilde, happend⟩ := TagRead.local_of_gives hsigil h
    refine ⟨hsuffix, hbrace, htilde, fun more => ?_⟩
    have hopener := Opener.read_append hbrace more
    obtain ⟨tag', hmoved, hgives⟩ := happend ((inside ++ more).length + 2) more
    rw [← hopener] at hgives
    exact ⟨tag', hmoved, .ordinary (by rw [hopener]; exact hsigil) hgives⟩
  | inclusion hsigil h =>
    obtain ⟨hsuffix, hbrace, htilde, happend⟩ := Asked.local_of_gives h
    refine ⟨hsuffix, hbrace, htilde, fun more => ?_⟩
    have hopener := Opener.read_append hbrace more
    refine ⟨tag, Tag.Moved.rel_refl tag, .inclusion (by rw [hopener]; exact hsigil) ?_⟩
    rw [hopener]
    exact happend more

end TagAt

theorem TagRead.gives_none {d : Dialect} {left : Nat} {opener : Opener}
    (hsigil : opener.sigil ≠ .inclusion) {tag : Option Tag} {after : Bool} {rest : List Char}
    (h : Gives (read d none left opener) tag after rest) (place : Option Branch) :
    Gives (read d place left opener) tag after rest ∧ ∀ t, tag = some t → ¬ t.IsOtherwise := by
  obtain ⟨sigil, trims, cs⟩ := opener
  by_cases hs : sigil.isOrdinary = true
  · obtain ⟨p, a, hp, ha, rfl, hafter⟩ := (gives_ordinary hs).1 h
    obtain ⟨t, ht, ha⟩ := Cursor.bind_eq_ok.1 ha
    obtain ⟨ht, hnone⟩ := Cursor.tag_none ht place
    refine ⟨(gives_ordinary hs).2 ⟨p, a, hp, Cursor.bind_eq_ok.2 ⟨t, ht, ha⟩, rfl, hafter⟩, ?_⟩
    obtain ⟨trims, -, ha⟩ := Cursor.bind_eq_ok.1 ha
    cases ha
    rintro _ ⟨⟩
    exact hnone
  · cases sigil with
    | raw =>
      obtain ⟨p, a, body, closer, -, -, -, rfl, -⟩ := gives_raw.1 h
      refine ⟨h, ?_⟩
      rintro _ ⟨⟩
      exact id
    | comment =>
      obtain ⟨-, rfl, -⟩ := gives_comment.1 h
      exact ⟨h, nofun⟩
    | longComment =>
      obtain ⟨-, rfl, -⟩ := gives_comment.1 h
      exact ⟨h, nofun⟩
    | inclusion => exact absurd rfl hsigil
    | _ => exact absurd rfl hs

/-- A tag outside of blocks is the same inside of blocks, and no else marker. -/
theorem TagAt.anywhere {c : Catalog} {inside rest : List Char} {tag : Option Tag} {after : Bool}
    (h : TagAt c none inside tag after rest) (place : Option Branch) :
    TagAt c place inside tag after rest ∧ ∀ t, tag = some t → ¬ t.IsOtherwise := by
  cases h with
  | ordinary hsigil h =>
    obtain ⟨h, hnone⟩ := TagRead.gives_none hsigil h place
    exact ⟨.ordinary hsigil h, hnone⟩
  | inclusion hsigil h => exact ⟨.inclusion hsigil h, Asked.ne_otherwise h⟩

theorem Outline.atTag_ordinary {inside : List Char}
    (hsigil : (Opener.read inside).sigil ≠ .inclusion) (d : Dialect) (draft : Draft) (trims : Bool)
    (mark : Nat) (text : List Char) :
    let pushed := draft.pushText (Text.trimIf trims (Opener.read inside).trims text)
    atTag d draft trims mark text inside = onward d pushed mark
      (TagRead.read d pushed.place (inside.length + 2) (Opener.read inside)) := by
  unfold atTag
  dsimp only
  split
  · next heq => exact absurd heq hsigil
  · rfl

namespace Catalog
variable {c : Catalog} {draft draft' : Draft} {trims : Bool} {cs text inside : List Char}

theorem given_eq_read (mark : Nat) :
    (Outline.read c.dialect draft trims mark cs).given c.known = c.read draft trims cs :=
  Outline.given_mark c.dialect draft trims mark 0 cs

theorem read_end (hplain : Text.plain cs = (text, none)) (draft : Draft) (trims : Bool) :
    c.read draft trims cs =
      (draft.pushText (Text.trimIf trims false text)).ended.toOption := by
  unfold read
  rw [read_none hplain, finish_eq]
  cases (Draft.pushText _ draft).ended <;> rfl

theorem given_onward {n : Nat} {pushed : Draft} {x : Except Failure (TagRead n)} {tag : Option Tag}
    {after : Bool} {rest : List Char} (h : TagRead.Gives x tag after rest)
    (hadd : pushed.add tag = .ok draft') (mark : Nat) :
    (Outline.onward c.dialect pushed mark x).given c.known = c.read draft' after rest := by
  obtain ⟨r, rfl, rfl, rfl, rfl⟩ := h
  unfold Outline.onward
  dsimp only
  rw [hadd]
  exact given_eq_read _

theorem read_tag {pushed : Draft} {tag : Option Tag} {after : Bool} {rest : List Char}
    (hplain : Text.plain cs = (text, some inside))
    (hpushed : draft.pushText (Text.trimIf trims (Opener.read inside).trims text) = pushed)
    (htag : TagAt c pushed.place inside tag after rest) (hadd : pushed.add tag = .ok draft') :
    c.read draft trims cs = c.read draft' after rest := by
  subst hpushed
  unfold read
  rw [Outline.read_at_tag hplain]
  cases htag with
  | ordinary hsigil h =>
    rw [Outline.atTag_ordinary hsigil]
    exact given_onward h hadd _
  | inclusion hsigil h =>
    obtain ⟨asked, hasked, hknown, h⟩ := h
    unfold Outline.atTag
    simp only [hsigil, hasked, Outline.given, hknown, if_true]
    exact given_onward h hadd _

theorem gives_of_onward {n : Nat} {pushed : Draft} {x : Except Failure (TagRead n)} {mark : Nat}
    {items : List Item} (h : (Outline.onward c.dialect pushed mark x).given c.known = some items) :
    ∃ tag after rest draft', TagRead.Gives x tag after rest ∧ pushed.add tag = .ok draft' ∧
      c.read draft' after rest = some items := by
  cases x with
  | error f => cases h
  | ok r =>
    unfold Outline.onward at h
    dsimp only at h
    cases hadd : pushed.add r.tag with
    | error f =>
      rw [hadd] at h
      cases h
    | ok draft' =>
      rw [hadd] at h
      exact ⟨r.tag, r.trims, r.rest, draft', ⟨r, rfl, rfl, rfl, rfl⟩, hadd,
        (given_eq_read _).symm.trans h⟩

/-- What is read of a source with a tag in it, is read of that tag and of what is behind it. -/
theorem exists_tag {items : List Item} (hplain : Text.plain cs = (text, some inside))
    (h : c.read draft trims cs = some items) :
    ∃ pushed tag after rest draft',
      draft.pushText (Text.trimIf trims (Opener.read inside).trims text) = pushed ∧
      TagAt c pushed.place inside tag after rest ∧ pushed.add tag = .ok draft' ∧
        c.read draft' after rest = some items := by
  unfold read at h
  rw [Outline.read_at_tag hplain] at h
  by_cases hsigil : (Opener.read inside).sigil = .inclusion
  · unfold Outline.atTag at h
    simp only [hsigil] at h
    cases hasked : Asked.read c.dialect (Opener.read inside).rest with
    | error f =>
      rw [hasked] at h
      cases h
    | ok asked =>
      rw [hasked] at h
      dsimp only [Outline.given] at h
      split at h
      · next hknown =>
        obtain ⟨tag, after, rest, draft', hgives, hadd, hrest⟩ := gives_of_onward h
        exact ⟨_, tag, after, rest, draft', rfl, .inclusion hsigil ⟨asked, hasked, hknown, hgives⟩,
          hadd, hrest⟩
      · cases h
  · rw [Outline.atTag_ordinary hsigil] at h
    obtain ⟨tag, after, rest, draft', hgives, hadd, hrest⟩ := gives_of_onward h
    exact ⟨_, tag, after, rest, draft', rfl, .ordinary hsigil hgives, hadd, hrest⟩

end Catalog

namespace Draft

def pushAll (items : List Item) (d : Draft) : Draft := items.foldl (fun d item => d.push item) d

/-- What a template has come to inside of a source, where that had come to `outer`. -/
def inside (outer d : Draft) : Draft :=
  { outer.pushAll d.items with blocks := d.blocks ++ (outer.pushAll d.items).blocks }

variable {outer d d' : Draft}

theorem pushAll_append (xs ys : List Item) (d : Draft) :
    d.pushAll (xs ++ ys) = (d.pushAll xs).pushAll ys := List.foldl_append

theorem inside_nil (outer : Draft) (items : List Item) :
    outer.inside ⟨items, []⟩ = outer.pushAll items := rfl

theorem push_inside (outer d : Draft) (item : Item) :
    (outer.inside d).push item = outer.inside (d.push item) := by
  obtain ⟨items, blocks⟩ := d
  cases blocks with
  | nil => exact (pushAll_append items [item] outer).symm
  | cons b blocks => rfl

theorem pushText_inside (outer d : Draft) (text : List Char) :
    (outer.inside d).pushText text = outer.inside (d.pushText text) := by
  unfold pushText
  split
  · rfl
  · exact push_inside outer d _

theorem close_append {name : String} {b : OpenBlock} {blocks blocks' : List OpenBlock} {item : Item}
    (h : b.close name blocks = .ok (item, blocks')) (more : List OpenBlock) :
    b.close name (blocks ++ more) = .ok (item, blocks' ++ more) := by
  have hnamed {b : OpenBlock} {blocks : List OpenBlock}
      (h : b.closeNamed name blocks = .ok (item, blocks')) :
      b.closeNamed name (blocks ++ more) = .ok (item, blocks' ++ more) := by
    unfold OpenBlock.closeNamed at h ⊢
    split at h
    · next hname =>
      cases h
      rw [if_pos hname]
    · cases h
  induction blocks generalizing b with
  | nil =>
    unfold OpenBlock.close at h
    split at h
    · cases h
    · next hchained =>
      cases more with
      | nil =>
        rw [List.append_nil, List.append_nil, OpenBlock.close, if_neg hchained]
        exact h
      | cons next more =>
        rw [List.nil_append, OpenBlock.close, if_neg hchained]
        exact hnamed h
  | cons next blocks ih =>
    rw [List.cons_append]
    unfold OpenBlock.close at h ⊢
    split at h
    · next hchained =>
      rw [if_pos hchained]
      exact ih h
    · next hchained =>
      rw [if_neg hchained]
      exact hnamed h

/-- A tag of the template does not touch what is around it. -/
theorem add_inside {tag : Option Tag} (h : d.add tag = .ok d')
    (hplace : d.place = none → ∀ t, tag = some t → ¬ t.IsOtherwise) (outer : Draft) :
    (outer.inside d).add tag = .ok (outer.inside d') := by
  cases tag with
  | none =>
    cases h
    rfl
  | some tag =>
    cases tag with
    | value escape e => cases escape <;> cases h <;> exact congrArg Except.ok (push_inside outer d _)
    | opening call =>
      cases h
      rfl
    | raw call body =>
      cases h
      exact congrArg Except.ok (push_inside outer d _)
    | inclusion i =>
      cases h
      exact congrArg Except.ok (push_inside outer d _)
    | otherwise =>
      cases h
      obtain ⟨items, blocks⟩ := d
      cases blocks with
      | nil => exact absurd True.intro (hplace rfl _ rfl)
      | cons b blocks => rfl
    | otherwiseOpening call =>
      cases h
      obtain ⟨items, blocks⟩ := d
      cases blocks with
      | nil => exact absurd True.intro (hplace rfl _ rfl)
      | cons b blocks => rfl
    | closing name left =>
      obtain ⟨items, blocks⟩ := d
      cases blocks with
      | nil => cases h
      | cons b blocks =>
        unfold add addTag at h
        dsimp only at h
        cases hclose : b.close name blocks with
        | error kind =>
          rw [hclose] at h
          cases h
        | ok closed =>
          obtain ⟨item, rest⟩ := closed
          rw [hclose] at h
          cases h
          have happend := close_append hclose (outer.pushAll items).blocks
          rw [← push_inside]
          unfold add addTag inside
          dsimp only [List.cons_append]
          rw [happend]

end Draft

namespace TagAt
variable {c : Catalog} {inside rest : List Char} {tag : Option Tag} {after : Bool}

/-- A tag of a template is read the same inside of a source, and does the same there. -/
theorem inside_source {pushed draft' : Draft} (h : TagAt c pushed.place inside tag after rest)
    (hadd : pushed.add tag = .ok draft') (outer : Draft) (more : List Char) :
    ∃ tag', TagAt c (outer.inside pushed).place (inside ++ more) tag' after (rest ++ more) ∧
      (outer.inside pushed).add tag' = .ok (outer.inside draft') := by
  obtain ⟨tag', hmoved, hmore⟩ := h.isLocal.append more
  have hadd' := Draft.add_moved hmoved hadd
  obtain ⟨items, blocks⟩ := pushed
  cases blocks with
  | nil =>
    obtain ⟨hanywhere, hnone⟩ := hmore.anywhere (outer.inside ⟨items, []⟩).place
    exact ⟨tag', hanywhere, Draft.add_inside hadd' (fun _ => hnone) outer⟩
  | cons b blocks => exact ⟨tag', hmore, Draft.add_inside hadd' nofun outer⟩

end TagAt

namespace Catalog
variable {c : Catalog} {draft : Draft} {trims : Bool} {cs text inside : List Char}

theorem read_pushText (hplain : Text.plain cs = (text, some inside))
    (hopener : (Opener.read inside).trims = false) (draft : Draft) (trims : Bool) :
    c.read draft trims cs =
      c.read (draft.pushText (Text.trimIf trims false text)) false ('\x7b' :: '\x7b' :: inside) := by
  unfold read
  rw [Outline.read_pushed hplain, hopener]

theorem eq_of_ended {items : List Item} (h : draft.ended.toOption = some items) :
    draft = ⟨items, []⟩ := by
  obtain ⟨items, blocks⟩ := draft
  cases blocks <;> cases h
  rfl

/-- A template inside of a source is read up to the next tag and comes to its items there. -/
theorem read_inside {items : List Item} (h : c.read draft false cs = some items) (htilde : '~' ∉ cs)
    (hends : Text.Ends cs) (outer : Draft) (hopener : (Opener.read inside).trims = false) :
    c.read (outer.inside draft) false (cs ++ '\x7b' :: '\x7b' :: inside) =
      c.read (outer.pushAll items) false ('\x7b' :: '\x7b' :: inside) := by
  induction hn : cs.length using Nat.strongRecOn generalizing draft cs with
  | ind n ih =>
    subst hn
    cases hplain : Text.plain cs with
    | mk text tag =>
      cases tag with
      | none =>
        have hlast : Text.plain (cs ++ '\x7b' :: '\x7b' :: inside) = (text, some inside) := by
          rw [Text.plain_append_none hplain hends]
          exact congrArg (·, some inside) (List.append_nil text)
        rw [read_end hplain] at h
        rw [read_pushText hlast hopener, Draft.pushText_inside, eq_of_ended h, Draft.inside_nil]
      | some first =>
        have hsuffix := Text.suffix_of_plain hplain
        have htrims : (Opener.read first).trims = false :=
          Bool.eq_false_iff.2 fun htrims => htilde (hsuffix.mem (Opener.mem_of_trims htrims))
        obtain ⟨pushed, tag, after, rest, draft', hpushed, htag, hadd, hrest⟩ := exists_tag hplain h
        have hlocal := htag.isLocal
        have hopened := hlocal.suffix.trans (Opener.rest_suffix first)
        have hbehind := hopened.trans hsuffix
        have hafter : after = false := Bool.eq_false_iff.2 fun hafter =>
          htilde (hsuffix.mem ((Opener.rest_suffix first).mem (hlocal.tilde hafter)))
        subst hafter
        obtain ⟨tag', htag', hadd'⟩ :=
          htag.inside_source hadd outer ('\x7b' :: '\x7b' :: inside)
        have hpushed' : (outer.inside draft).pushText (Text.trimIf false
            (Opener.read (first ++ '\x7b' :: '\x7b' :: inside)).trims text) = outer.inside pushed := by
          rw [Opener.read_append hlocal.brace, Draft.pushText_inside, ← hpushed]
        have hlt := Nat.lt_of_le_of_lt hopened.length_le
          (Text.length_lt_of_plain (congrArg Prod.snd hplain))
        rw [read_tag (Text.plain_append_some hplain _) hpushed' htag' hadd']
        exact ih rest.length hlt hrest (fun hmem => htilde (hbehind.mem hmem))
          (hends.of_suffix hbehind) rfl

end Catalog

/-- What is in front of a text is text and whole tags. Reading has come to a draft there, and trims
the text if the last tag says so. -/
inductive Front (c : Catalog) : List Char → Bool → Draft → Prop
  | start : Front c [] false {}
  | tag {front cs text inside : List Char} {trims after : Bool} {draft pushed draft' : Draft}
    {tag : Option Tag} (h : Front c front trims draft) (hplain : Text.plain cs = (text, some inside))
    (hpushed : draft.pushText (Text.trimIf trims (Opener.read inside).trims text) = pushed)
    (htag : TagAt c pushed.place inside tag after []) (hadd : pushed.add tag = .ok draft') :
    Front c (front ++ cs) after draft'

theorem Front.read {c : Catalog} {front : List Char} {trims : Bool} {draft : Draft}
    (h : Front c front trims draft) (more : List Char) :
    c.read {} false (front ++ more) = c.read draft trims more := by
  induction h generalizing more with
  | start => rfl
  | @tag front cs text inside trims after draft pushed draft' tag h hplain hpushed htag hadd ih =>
    have hlocal := htag.isLocal
    obtain ⟨tag', hmoved, hmore⟩ := hlocal.append more
    have hpushed' : draft.pushText (Text.trimIf trims (Opener.read (inside ++ more)).trims text) =
        pushed := by rw [Opener.read_append hlocal.brace, hpushed]
    rw [List.append_assoc, ih, Catalog.read_tag (Text.plain_append_some hplain more) hpushed' hmore
      (Draft.add_moved hmoved hadd)]
    rfl

structure Spot (c : Catalog) where
  /-- The source up to the last tag in front of the spot. -/
  front : List Char
  trims : Bool
  draft : Draft
  isFront : Front c front trims draft
  /-- The characters behind that tag, and the text they stand for. -/
  before : List Char
  text : List Char
  isText : Text.plain (before ++ ['\x7b', '\x7b']) = (text, some [])
  behind : List Char

namespace Spot
variable {c : Catalog}

def fill (s : Spot c) (cs : List Char) : String :=
  String.ofList (s.front ++ (s.before ++ (cs ++ s.behind)))

def here (s : Spot c) : Draft := s.draft.pushText (Text.trimIf s.trims false s.text)

theorem read_fill (s : Spot c) {inside : List Char}
    (hopener : (Opener.read (inside ++ s.behind)).trims = false) :
    (c.compile (s.fill ('\x7b' :: '\x7b' :: inside))).toOption.map Template.items =
      c.read s.here false ('\x7b' :: '\x7b' :: inside ++ s.behind) := by
  have hplain : Text.plain (s.before ++ ('\x7b' :: '\x7b' :: inside ++ s.behind)) =
      (s.text, some (inside ++ s.behind)) := by
    have happend := Text.plain_append_some s.isText (inside ++ s.behind)
    rwa [List.append_assoc] at happend
  unfold fill
  rw [Catalog.compile_toOption, s.isFront.read, Catalog.read_pushText hplain hopener]
  rfl

end Spot

/-- The text begins with a tag that does not trim what is in front of it. -/
def BeginsTag (cs : List Char) : Prop :=
  ∃ inside, cs = '\x7b' :: '\x7b' :: inside ∧ ∀ more, (Opener.read (inside ++ more)).trims = false

structure ReadsAs (c : Catalog) (cs : List Char) (item : Item) : Prop where
  begins : BeginsTag cs
  read : ∀ draft more, c.read draft false (cs ++ more) = c.read (draft.push item) false more

/-- Two sources that compile to templates with the same items, but for `x` that is exchanged for
`y`, or that both do not compile. -/
def Catalog.Exchanges (c : Catalog) (x y : Item) (source source' : String) : Prop :=
  Option.Rel (List.Forall₂ (Item.Exchanged x y)) ((c.compile source).toOption.map Template.items)
    ((c.compile source').toOption.map Template.items)

/-- What stands at a spot has no part in how the rest of the source is read. -/
theorem Spot.exchanges {c : Catalog} (s : Spot c) {cs cs' : List Char} {x y : Item}
    (hx : ReadsAs c cs x) (hy : ReadsAs c cs' y) : c.Exchanges x y (s.fill cs) (s.fill cs') := by
  have hread {cs : List Char} {x : Item} (hx : ReadsAs c cs x) :
      (c.compile (s.fill cs)).toOption.map Template.items = c.read (s.here.push x) false s.behind := by
    obtain ⟨inside, rfl, hopener⟩ := hx.begins
    rw [s.read_fill (hopener s.behind)]
    exact hx.read s.here s.behind
  have hhere : Item.Exchanged x y x y := .here
  have hsame := (Draft.Same.refl (Item.exchanged_congruence x y) s.here).push hhere
  unfold Catalog.Exchanges
  rw [hread hx, hread hy]
  exact Outline.given_same (Item.exchanged_congruence x y) c.dialect hsame false 0 0 s.behind

end Stencil
