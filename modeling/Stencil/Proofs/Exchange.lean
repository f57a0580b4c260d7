import Stencil.Proofs.ByName
import Stencil.Proofs.Rounds

set_option autoImplicit false

/-!
# Exchanged blocks

Reading goes on from a draft by its open blocks and their bodies, but never looks at the items in them.
So drafts that are the same but for an item in the place of another are read on to items that are the
same but for it.
-/
namespace Stencil

namespace Outline

/-- The items of a source, if nothing is wrong with it and it asks for known partials only. -/
def given (known : String → Bool) : Outline → Option (List Item)
  | finished items => some items
  | failed _ => none
  | asking name _ next => if known name then next.given known else none

theorem check_toOption (source : String) (known : String → Bool) (outline : Outline) :
    (outline.check source fun name => .ok (known name)).toOption = outline.given known := by
  induction outline with
  | finished items => rfl
  | failed f => rfl
  | asking name left next ih =>
    rw [check, given]
    cases known name with
    | false => rfl
    | true => exact ih

end Outline

namespace Catalog

def known (c : Catalog) (name : String) : Bool := (c.sources.get? name).isSome

def read (c : Catalog) (draft : Draft) (trims : Bool) (cs : List Char) : Option (List Item) :=
  (Outline.read c.dialect draft trims 0 cs).given c.known

theorem compile_toOption (c : Catalog) (cs : List Char) :
    (c.compile (String.ofList cs)).toOption.map Template.items = c.read {} false cs := by
  have hcheck := Outline.check_toOption (String.ofList cs) c.known
    (Outline.ofSource c.dialect (String.ofList cs))
  unfold Outline.ofSource at hcheck
  rw [String.toList_ofList] at hcheck
  unfold compile read Outline.ofSource
  rw [String.toList_ofList, ← hcheck]
  unfold known
  cases Outline.check _ _ _ <;> rfl

end Catalog

structure Item.Congruence (S : Item → Item → Prop) : Prop where
  refl : ∀ x, S x x
  block : ∀ call chained {body body' inverse inverse' : List Item}, List.Forall₂ S body body' →
    List.Forall₂ S inverse inverse' →
      S (.block ⟨call, body, inverse, chained⟩) (.block ⟨call, body', inverse', chained⟩)

/-- The same item, but for `x` that may have been exchanged for `y` in it. -/
inductive Item.Exchanged (x y : Item) : Item → Item → Prop
  | same (z : Item) : Exchanged x y z z
  | here : Exchanged x y x y
  | block (call : Call Expr) (chained : Bool) {body body' inverse inverse' : List Item}
    (hbody : List.Forall₂ (Exchanged x y) body body')
    (hinverse : List.Forall₂ (Exchanged x y) inverse inverse') :
    Exchanged x y (.block ⟨call, body, inverse, chained⟩) (.block ⟨call, body', inverse', chained⟩)

theorem Item.exchanged_congruence (x y : Item) : Item.Congruence (Item.Exchanged x y) :=
  ⟨.same, .block⟩

theorem Item.eq_congruence : Item.Congruence Eq := by
  refine ⟨fun _ => rfl, ?_⟩
  intro call chained body body' inverse inverse' hbody hinverse
  rw [List.forall₂_eq_eq_eq] at hbody hinverse
  rw [hbody, hinverse]

section
variable {S : Item → Item → Prop}

structure OpenBlock.Same (S : Item → Item → Prop) (b b' : OpenBlock) : Prop where
  call : b.call = b'.call
  chained : b.chained = b'.chained
  branch : b.branch = b'.branch
  body : List.Forall₂ S b.body b'.body
  inverse : List.Forall₂ S b.inverse b'.inverse

structure Draft.Same (S : Item → Item → Prop) (d d' : Draft) : Prop where
  items : List.Forall₂ S d.items d'.items
  blocks : List.Forall₂ (OpenBlock.Same S) d.blocks d'.blocks

namespace OpenBlock.Same
variable {b b' : OpenBlock}

theorem refl (hS : Item.Congruence S) (b : OpenBlock) : OpenBlock.Same S b b :=
  ⟨rfl, rfl, rfl, List.forall₂_same.2 fun x _ => hS.refl x, List.forall₂_same.2 fun x _ => hS.refl x⟩

theorem push (h : b.Same S b') {x y : Item} (hxy : S x y) : (b.push x).Same S (b'.push y) := by
  have hone : List.Forall₂ S [x] [y] := .cons hxy .nil
  obtain ⟨call, chained, branch, body, inverse⟩ := b
  obtain ⟨call', chained', branch', body', inverse'⟩ := b'
  obtain ⟨hcall, hchained, hbranch, hbody, hinverse⟩ := h
  cases hbranch
  cases branch with
  | main => exact ⟨hcall, hchained, rfl, List.rel_append hbody hone, hinverse⟩
  | inverse => exact ⟨hcall, hchained, rfl, hbody, List.rel_append hinverse hone⟩

theorem toItem (hS : Item.Congruence S) (h : b.Same S b') : S b.toItem b'.toItem := by
  obtain ⟨hcall, hchained, -, hbody, hinverse⟩ := h
  unfold OpenBlock.toItem
  rw [hcall, hchained]
  exact hS.block _ _ hbody hinverse

end OpenBlock.Same

/-- Two computations that fail in the same way, or come to results that are related. -/
inductive Both {ε α β : Type} (R : α → β → Prop) : Except ε α → Except ε β → Prop
  | error (e : ε) : Both R (.error e) (.error e)
  | ok {a : α} {b : β} (h : R a b) : Both R (.ok a) (.ok b)

theorem OpenBlock.Same.closeNamed (hS : Item.Congruence S) {b b' : OpenBlock} (h : b.Same S b')
    {outer outer' : List OpenBlock} (houter : List.Forall₂ (OpenBlock.Same S) outer outer')
    (name : String) :
    Both (fun p p' => S p.1 p'.1 ∧ List.Forall₂ (OpenBlock.Same S) p.2 p'.2)
      (b.closeNamed name outer) (b'.closeNamed name outer') := by
  unfold OpenBlock.closeNamed
  rw [h.call]
  split
  · exact .ok ⟨h.toItem hS, houter⟩
  · exact .error _

theorem OpenBlock.Same.close (hS : Item.Congruence S) {b b' : OpenBlock} (h : b.Same S b')
    {outer outer' : List OpenBlock} (houter : List.Forall₂ (OpenBlock.Same S) outer outer')
    (name : String) :
    Both (fun p p' => S p.1 p'.1 ∧ List.Forall₂ (OpenBlock.Same S) p.2 p'.2) (b.close name outer)
      (b'.close name outer') := by
  induction houter generalizing b b' with
  | nil =>
    unfold OpenBlock.close
    rw [h.chained]
    split
    · exact .error _
    · exact h.closeNamed hS .nil name
  | cons hnext houter ih =>
    unfold OpenBlock.close
    rw [h.chained]
    split
    · exact ih (hnext.push (h.toItem hS))
    · exact h.closeNamed hS (.cons hnext houter) name

namespace Draft.Same
variable {d d' : Draft}

theorem refl (hS : Item.Congruence S) (d : Draft) : d.Same S d :=
  ⟨List.forall₂_same.2 fun x _ => hS.refl x, List.forall₂_same.2 fun b _ => .refl hS b⟩

theorem place (h : d.Same S d') : d.place = d'.place := by
  obtain ⟨items, blocks⟩ := d
  obtain ⟨items', blocks'⟩ := d'
  cases h.blocks with
  | nil => rfl
  | cons hb _ => exact congrArg some hb.branch

theorem push (h : d.Same S d') {x y : Item} (hxy : S x y) : (d.push x).Same S (d'.push y) := by
  obtain ⟨items, blocks⟩ := d
  obtain ⟨items', blocks'⟩ := d'
  obtain ⟨hitems, hblocks⟩ := h
  cases hblocks with
  | nil => exact ⟨List.rel_append hitems (.cons hxy .nil), .nil⟩
  | cons hb houter => exact ⟨hitems, .cons (hb.push hxy) houter⟩

theorem pushText (hS : Item.Congruence S) (h : d.Same S d') (text : List Char) :
    (d.pushText text).Same S (d'.pushText text) := by
  unfold Draft.pushText
  split
  · exact h
  · exact h.push (hS.refl _)

theorem openBlock (h : d.Same S d') (call : Call Expr) (chained : Bool) :
    (d.openBlock call chained).Same S (d'.openBlock call chained) :=
  ⟨h.items, .cons ⟨rfl, rfl, rfl, .nil, .nil⟩ h.blocks⟩

theorem toInverse (h : d.Same S d') : d.toInverse.Same S d'.toInverse := by
  obtain ⟨items, blocks⟩ := d
  obtain ⟨items', blocks'⟩ := d'
  obtain ⟨hitems, hblocks⟩ := h
  cases hblocks with
  | nil => exact ⟨hitems, .nil⟩
  | cons hb houter =>
    exact ⟨hitems, .cons ⟨hb.call, hb.chained, rfl, hb.body, hb.inverse⟩ houter⟩

theorem addTag (hS : Item.Congruence S) (h : d.Same S d') (tag : Tag) :
    Both (Draft.Same S) (d.addTag tag) (d'.addTag tag) := by
  cases tag with
  | value escape e => cases escape <;> exact .ok (h.push (hS.refl _))
  | opening call => exact .ok (h.openBlock call false)
  | otherwise => exact .ok h.toInverse
  | otherwiseOpening call => exact .ok (h.toInverse.openBlock call true)
  | raw call body => exact .ok (h.push (hS.refl _))
  | inclusion i => exact .ok (h.push (hS.refl _))
  | closing name left =>
    obtain ⟨items, blocks⟩ := d
    obtain ⟨items', blocks'⟩ := d'
    obtain ⟨hitems, hblocks⟩ := h
    cases hblocks with
    | nil => exact .error _
    | @cons b b' outer outer' hb houter =>
      have hclose := hb.close hS houter name
      unfold Draft.addTag
      dsimp only
      generalize b.close name outer = x, b'.close name outer' = y at hclose
      cases hclose with
      | error kind => exact .error _
      | @ok p p' hclosed =>
        have hdraft : Draft.Same S ⟨items, p.2⟩ ⟨items', p'.2⟩ := ⟨hitems, hclosed.2⟩
        exact .ok (hdraft.push hclosed.1)

theorem add (hS : Item.Congruence S) (h : d.Same S d') (tag : Option Tag) :
    Both (Draft.Same S) (d.add tag) (d'.add tag) := by
  cases tag with
  | none => exact .ok h
  | some tag => exact h.addTag hS tag

end Draft.Same

namespace Outline
variable {known : String → Bool}

theorem given_same (hS : Item.Congruence S) (dialect : Dialect) {d d' : Draft} (h : d.Same S d')
    (trims : Bool) (mark mark' : Nat) (cs : List Char) :
    Option.Rel (List.Forall₂ S) ((read dialect d trims mark cs).given known)
      ((read dialect d' trims mark' cs).given known) := by
  induction hn : cs.length using Nat.strongRecOn generalizing d d' trims mark mark' cs with
  | ind n ih =>
    subst hn
    cases hplain : Text.plain cs with
    | mk text tag =>
      cases tag with
      | none =>
        have hpushed := h.pushText hS (Text.trimIf trims false text)
        rw [read_none hplain, read_none hplain]
        generalize d.pushText _ = d, d'.pushText _ = d' at hpushed
        obtain ⟨items, blocks⟩ := d
        obtain ⟨items', blocks'⟩ := d'
        cases hpushed.blocks with
        | nil => exact .some hpushed.items
        | cons => exact .none
      | some inside =>
        have hpushed := h.pushText hS (Text.trimIf trims (Opener.read inside).trims text)
        have hlt := Text.length_lt_of_plain (congrArg Prod.snd hplain)
        have hopener := Opener.read_length inside
        rw [read_at_tag hplain, read_at_tag hplain]
        unfold atTag
        dsimp only
        generalize d.pushText _ = d, d'.pushText _ = d' at hpushed
        have honward (x : Except Failure (TagRead (Opener.read inside).rest.length)) :
            Option.Rel (List.Forall₂ S) ((onward dialect d mark x).given known)
              ((onward dialect d' mark' x).given known) := by
          cases x with
          | error f => exact .none
          | ok r =>
            have hadd := hpushed.add hS r.tag
            unfold onward
            dsimp only
            generalize d.add r.tag = x, d'.add r.tag = y at hadd
            cases hadd with
            | error f => exact .none
            | ok h => exact ih r.rest.length (by have := r.le; omega) h r.trims _ _ r.rest rfl
        rw [hpushed.place]
        split
        · cases Asked.read dialect (Opener.read inside).rest with
          | error f => exact .none
          | ok asked =>
            dsimp only
            rw [given, given]
            split
            · exact honward asked.tag
            · exact .none
        · exact honward _

/-- It does not matter where the tag before was. -/
theorem given_mark (dialect : Dialect) (d : Draft) (trims : Bool) (mark mark' : Nat)
    (cs : List Char) :
    (read dialect d trims mark cs).given known = (read dialect d trims mark' cs).given known := by
  have hsame : Option.Rel (List.Forall₂ Eq) ((read dialect d trims mark cs).given known)
      ((read dialect d trims mark' cs).given known) :=
    given_same Item.eq_congruence dialect (.refl Item.eq_congruence d) trims mark mark' cs
  generalize (read dialect d trims mark cs).given known = x,
    (read dialect d trims mark' cs).given known = y at hsame
  cases hsame with
  | none => rfl
  | some h =>
    rw [List.forall₂_eq_eq_eq] at h
    rw [h]

end Outline
end

end Stencil
