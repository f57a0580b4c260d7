import Stencil.Proofs.Complaints
import Stencil.Proofs.Faults
import Stencil.Proofs.TagTexts

set_option autoImplicit false

/-!
# Blocks that are still open

A block that is still open at the end of a source is named like a tag in the source that opens it. So
the tag is longer than the name that is complained about.
-/
namespace Stencil

def Tag.call? : Tag → Option (Call Expr)
  | .opening call | .otherwiseOpening call => some call
  | _ => none

theorem Within.of_ok {α : Type} {n : Nat} {p : α → Prop} {x : Except Failure α} {a : α}
    (h : Within n p x) (hx : x = .ok a) : p a := by
  rw [hx] at h
  exact h

namespace Cursor
variable {c : Cursor} {d : Dialect} {place : Option Branch}

theorem length_upTo_le (c e : Cursor) : (c.upTo e).length ≤ c.left - e.left := by
  unfold upTo
  rw [String.length_ofList]
  exact List.length_take_le _ _

theorem blockCall_name_le {a : c.Ahead (Call Expr)} (h : c.blockCall d = .ok a) :
    a.result.name.length + a.cursor.left ≤ c.left := by
  obtain ⟨call, hcall, h⟩ := bind_eq_ok.1 h
  obtain ⟨_, -, h⟩ := bind_eq_ok.1 h
  cases h
  obtain ⟨head, args, _, hhead, hargs, rfl⟩ := exists_of_call hcall
  have hle := (head_within (Nat.le_refl _) d d.blockFallback).of_ok hhead
  have hle' := ((endWithinBelow d _ _).arguments head.cursor (Nat.le_refl _)
    (Nat.lt_succ_self _)).of_ok hargs
  have hname := length_upTo_le c head.cursor
  dsimp only at *
  omega

/-- A reading that comes to a tag has the name of the block that the tag opens, if any, in front of
where it ends. -/
def HoldsName (n : Nat) (x : Except Failure (c.Ahead Tag)) : Prop :=
  ∀ a, x = .ok a → ∀ call, a.result.call? = some call → call.name.length + a.cursor.left ≤ n

variable {n : Nat}

theorem valueTag_holdsName (escape : Bool) : HoldsName n (c.valueTag d escape) := by
  intro a h call hcall
  unfold valueTag at h
  rw [map_eq_pure_bind] at h
  obtain ⟨e, -, h⟩ := bind_eq_ok.1 h
  cases h
  cases hcall

theorem otherwiseTag_holdsName : HoldsName n (c.otherwiseTag place) := by
  intro a h call hcall
  unfold otherwiseTag at h
  split at h <;> cases h
  cases hcall

theorem otherwiseOpeningTag_holdsName : HoldsName c.left (c.otherwiseOpeningTag d place) := by
  intro a h call hcall
  unfold otherwiseOpeningTag at h
  split at h
  · cases h
  · obtain ⟨b, hb, h⟩ := bind_eq_ok.1 h
    cases h
    cases hcall
    exact blockCall_name_le hb

theorem escapedTag_holdsName : HoldsName c.left (c.escapedTag d place) := by
  intro a h call hcall
  unfold escapedTag at h
  obtain ⟨word, hword, h⟩ := bind_eq_ok.1 h
  cases word with
  | none => exact valueTag_holdsName true a h call hcall
  | some past =>
    have hpast := (eat_within (Nat.le_refl _) .elseWord).of_ok hword past rfl
    dsimp only at h
    split at h
    · obtain ⟨b, hb, h⟩ := bind_eq_ok.1 h
      cases h
      exact otherwiseTag_holdsName b hb call hcall
    · obtain ⟨space, hspace, h⟩ := bind_eq_ok.1 h
      have hle := (skip_within (Nat.le_refl _) .space).of_ok hspace
      split at h
      · obtain ⟨b, hb, h⟩ := bind_eq_ok.1 h
        cases h
        have hname := otherwiseOpeningTag_holdsName b hb call hcall
        exact Nat.le_trans hname (Nat.le_trans hle hpast)
      · obtain ⟨b, hb, h⟩ := bind_eq_ok.1 h
        cases h
        exact otherwiseTag_holdsName b hb call hcall

theorem negatedTag_holdsName : HoldsName c.left (c.negatedTag d place) := by
  intro a h call hcall
  unfold negatedTag at h
  split at h
  · exact otherwiseTag_holdsName a h call hcall
  · obtain ⟨⟨r, e, he⟩, hr, h⟩ := bind_eq_ok.1 h
    have hle := (reference?_within (Nat.le_refl _)).of_ok hr
    cases r with
    | none => cases h
    | some r =>
      cases h
      cases hcall
      have hname := length_upTo_le c e
      dsimp only at *
      omega

theorem tag_holdsName (sigil : Sigil) : HoldsName c.left (c.tag d place sigil) := by
  have hopening : HoldsName c.left (Ahead.map Tag.opening <$> c.blockCall d) := by
    intro a h call hcall
    rw [map_eq_pure_bind] at h
    obtain ⟨b, hb, h⟩ := bind_eq_ok.1 h
    cases h
    cases hcall
    exact blockCall_name_le hb
  have hclosing : HoldsName c.left c.closingTag := by
    intro a h call hcall
    obtain ⟨b, -, h⟩ := bind_eq_ok.1 h
    cases h
    cases hcall
  cases sigil with
  | unescaped | triple => exact valueTag_holdsName false
  | opening => exact hopening
  | negated => exact negatedTag_holdsName
  | closing => exact hclosing
  | _ => exact escapedTag_holdsName

theorem closer_left {extra : Nat} (hc : c.At c.chars) {a : c.Ahead Bool}
    (h : c.closer extra = .ok a) : a.cursor.rest.length + 2 ≤ c.left := by
  obtain ⟨f, ⟨hreach, -⟩, hf⟩ := exists_beforeCloser hc h
  have hle : f.left ≤ c.left := by
    rcases hreach with rfl | ⟨-, hnext⟩
    · exact Nat.le_refl _
    · rw [hnext.left]
      simp [left, chars]
  have hleft : f.left = (closerText extra a.result ++ a.cursor.rest).length := hf.left
  simp [closerText] at hleft
  omega

theorem enter_at {cs : List Char} {p : { c : Cursor // c.rest.length < cs.length }}
    (hp : enter cs = .ok p) : p.1.At p.1.chars ∧ p.1.chars <:+ cs := by
  obtain ⟨e, space, he, hspace, hcursor⟩ := exists_of_enter hp
  have hreaches := (skip_carries (alike_beyond e) .space space hspace).1
  rw [hcursor] at hreaches
  refine ⟨hreaches.at_chars (he.chars.symm ▸ he), ?_⟩
  have hsuffix := hreaches.chars_suffix
  rwa [he.chars] at hsuffix

end Cursor

open Cursor in
theorem TagRead.call_le {d : Dialect} {place : Option Branch} {left : Nat} {opener : Opener}
    (hsigil : opener.sigil ≠ .inclusion) {r : TagRead opener.rest.length}
    (h : TagRead.read d place left opener = .ok r) {t : Tag} (ht : r.tag = some t)
    {call : Call Expr} (hcall : t.call? = some call) :
    call.name.length + 2 + r.rest.length ≤ opener.rest.length := by
  obtain ⟨sigil, trims, cs⟩ := opener
  have hgives : Gives (TagRead.read d place left ⟨sigil, trims, cs⟩) (some t) r.trims r.rest :=
    ⟨r, h, ht, rfl, rfl⟩
  by_cases hs : sigil.isOrdinary = true
  · obtain ⟨p, a, hp, ha, htag, -, hrest⟩ := (gives_ordinary hs).1 hgives
    obtain ⟨tag, htag', ha⟩ := bind_eq_ok.1 ha
    obtain ⟨trims, htrims, ha⟩ := bind_eq_ok.1 ha
    cases ha
    cases htag
    obtain ⟨hat, hsuffix⟩ := enter_at hp
    have hname := tag_holdsName sigil tag htag' call hcall
    have hreaches := (tag_carries (alike_beyond p.1) d place sigil tag htag').1
    have hcloser := closer_left (hreaches.at_chars hat) htrims
    have hle := hsuffix.length_le
    rw [← hrest]
    change _ + trims.cursor.rest.length ≤ cs.length
    change p.1.left ≤ _ at hle
    omega
  · cases sigil with
    | raw =>
      obtain ⟨p, a, body, closer, -, -, -, htag, -⟩ := gives_raw.1 hgives
      cases htag
      cases hcall
    | comment =>
      obtain ⟨-, htag, -⟩ := gives_comment.1 hgives
      cases htag
    | longComment =>
      obtain ⟨-, htag, -⟩ := gives_comment.1 hgives
      cases htag
    | inclusion => exact absurd rfl hsigil
    | _ => exact absurd rfl hs

namespace Draft
variable {d d' : Draft} {call : Call Expr}

def calls (d : Draft) : List (Call Expr) := d.blocks.map OpenBlock.call

theorem calls_push (item : Item) (d : Draft) : (d.push item).calls = d.calls := by
  obtain ⟨items, blocks⟩ := d
  cases blocks with
  | nil => rfl
  | cons b outer =>
    obtain ⟨call, chained, branch, body, inverse⟩ := b
    cases branch <;> rfl

theorem calls_pushText (text : List Char) (d : Draft) : (d.pushText text).calls = d.calls := by
  unfold pushText
  split
  · rfl
  · exact calls_push _ d

theorem calls_toInverse (d : Draft) : d.toInverse.calls = d.calls := by
  obtain ⟨items, blocks⟩ := d
  cases blocks <;> rfl

theorem close_suffix {name : String} {b : OpenBlock} {outer blocks : List OpenBlock} {item : Item}
    (h : b.close name outer = .ok (item, blocks)) : blocks <:+ outer := by
  have hnamed {b : OpenBlock} {outer : List OpenBlock}
      (h : b.closeNamed name outer = .ok (item, blocks)) : blocks <:+ outer := by
    unfold OpenBlock.closeNamed at h
    split at h <;> cases h
    exact List.suffix_refl _
  induction outer generalizing b with
  | nil =>
    unfold OpenBlock.close at h
    split at h
    · cases h
    · exact hnamed h
  | cons next outer ih =>
    unfold OpenBlock.close at h
    split at h
    · exact (ih h).trans (List.suffix_cons next outer)
    · exact hnamed h

/-- The calls of open blocks come from the tags that open them. -/
theorem mem_calls_add {tag : Option Tag} (h : d.add tag = .ok d') (hcall : call ∈ d'.calls) :
    call ∈ d.calls ∨ ∃ t, tag = some t ∧ t.call? = some call := by
  cases tag with
  | none =>
    cases h
    exact .inl hcall
  | some tag =>
    cases tag with
    | value escape e => cases escape <;> cases h <;> exact .inl (calls_push _ d ▸ hcall)
    | opening other =>
      cases h
      rcases List.mem_cons.1 hcall with rfl | hcall
      · exact .inr ⟨_, rfl, rfl⟩
      · exact .inl hcall
    | otherwise =>
      cases h
      exact .inl (calls_toInverse d ▸ hcall)
    | otherwiseOpening other =>
      cases h
      rcases List.mem_cons.1 hcall with rfl | hcall
      · exact .inr ⟨_, rfl, rfl⟩
      · exact .inl (calls_toInverse d ▸ hcall)
    | raw other body =>
      cases h
      exact .inl (calls_push _ d ▸ hcall)
    | inclusion i =>
      cases h
      exact .inl (calls_push _ d ▸ hcall)
    | closing name left =>
      obtain ⟨items, blocks⟩ := d
      cases blocks with
      | nil => cases h
      | cons b outer =>
        unfold add addTag at h
        dsimp only at h
        split at h
        · next item blocks hclose =>
          cases h
          rw [calls_push] at hcall
          have hsuffix := ((close_suffix hclose).map OpenBlock.call).mem hcall
          exact .inl (List.mem_cons_of_mem _ hsuffix)
        · cases h

theorem close_unblocked (name other : String) (b : OpenBlock) (outer : List OpenBlock) :
    b.close name outer ≠ .error (.blockStillOpen other) := by
  have hnamed (b : OpenBlock) (outer : List OpenBlock) :
      b.closeNamed name outer ≠ .error (.blockStillOpen other) := by
    unfold OpenBlock.closeNamed
    split <;> rintro ⟨⟩
  induction outer generalizing b with
  | nil =>
    unfold OpenBlock.close
    split
    · rintro ⟨⟩
    · exact hnamed b []
  | cons next outer ih =>
    unfold OpenBlock.close
    split
    · exact ih _
    · exact hnamed b _

theorem add_unblocked (tag : Option Tag) (d : Draft) : Unblocked (d.add tag) := by
  cases tag with
  | none => exact .ok d
  | some tag =>
    cases tag with
    | value escape e => cases escape <;> exact .ok _
    | closing name left =>
      obtain ⟨items, blocks⟩ := d
      cases blocks with
      | nil => rintro left other ⟨⟩
      | cons b outer =>
        unfold add addTag
        dsimp only
        split
        · exact .ok _
        · next kind hclose =>
          rintro left other ⟨⟩
          exact close_unblocked name other b outer hclose
    | _ => exact .ok _

end Draft

namespace Outline
variable {d : Dialect} {draft : Draft} {trims : Bool} {mark left : Nat} {cs : List Char}
  {name : String}

theorem onward_blockStillOpen {n : Nat} {pushed : Draft} {x : Except Failure (TagRead n)}
    (hx : Unblocked x) (h : onward d pushed mark x = .failed ⟨left, .blockStillOpen name⟩) :
    ∃ r draft' mark', x = .ok r ∧ pushed.add r.tag = .ok draft' ∧
      read d draft' r.trims mark' r.rest = .failed ⟨left, .blockStillOpen name⟩ := by
  cases x with
  | error f =>
    cases h
    exact absurd rfl (hx _ _)
  | ok r =>
    unfold onward at h
    dsimp only at h
    cases hadd : pushed.add r.tag with
    | error f =>
      rw [hadd] at h
      cases h
      exact absurd hadd (Draft.add_unblocked _ _ _ _)
    | ok draft' =>
      rw [hadd] at h
      exact ⟨r, draft', _, rfl, hadd, h⟩

theorem tag_blockStillOpen {text inside : List Char} (hplain : Text.plain cs = (text, some inside))
    (h : read d draft trims mark cs = .failed ⟨left, .blockStillOpen name⟩) :
    (Opener.read inside).sigil ≠ .inclusion ∧ ∃ pushed r draft' mark',
      draft.pushText (Text.trimIf trims (Opener.read inside).trims text) = pushed ∧
        TagRead.read d pushed.place (inside.length + 2) (Opener.read inside) = .ok r ∧
          pushed.add r.tag = .ok draft' ∧
            read d draft' r.trims mark' r.rest = .failed ⟨left, .blockStillOpen name⟩ := by
  rw [read_at_tag hplain] at h
  by_cases hsigil : (Opener.read inside).sigil = .inclusion
  · unfold atTag at h
    simp only [hsigil] at h
    cases hasked : Asked.read d (Opener.read inside).rest with
    | error f =>
      rw [hasked] at h
      cases h
      exact absurd hasked ((Asked.read_unblocked d _).1 _ _)
    | ok asked =>
      rw [hasked] at h
      cases h
  · rw [atTag_ordinary hsigil] at h
    obtain ⟨r, draft', mark', hr, hadd, hrest⟩ :=
      onward_blockStillOpen (TagRead.read_unblocked d _ _ _) h
    exact ⟨hsigil, _, r, draft', mark', rfl, hr, hadd, hrest⟩

/-- A block that is still open at the end was open before, or its tag with its name is in the text. -/
theorem blockStillOpen_le (h : read d draft trims mark cs = .failed ⟨left, .blockStillOpen name⟩) :
    (∃ call ∈ draft.calls, call.name = name) ∨ name.length + 2 ≤ cs.length := by
  induction hn : cs.length using Nat.strongRecOn generalizing draft trims mark cs with
  | ind n ih =>
    subst hn
    cases hplain : Text.plain cs with
    | mk text tag =>
      cases tag with
      | none =>
        rw [read_none hplain] at h
        have hcalls := Draft.calls_pushText (Text.trimIf trims false text) draft
        generalize Draft.pushText _ draft = pushed at h hcalls
        obtain ⟨items, blocks⟩ := pushed
        cases blocks with
        | nil => cases h
        | cons b outer =>
          cases h
          exact .inl ⟨b.call, hcalls ▸ List.mem_cons_self, rfl⟩
      | some inside =>
        have hlt := Text.length_lt_of_plain (congrArg Prod.snd hplain)
        have hopener := Opener.read_length inside
        obtain ⟨hsigil, pushed, r, draft', mark', rfl, hr, hadd, hrest⟩ := tag_blockStillOpen hplain h
        have hle := r.le
        rcases ih r.rest.length (by omega) hrest rfl with ⟨call, hcall, hname⟩ | hlength
        · rcases Draft.mem_calls_add hadd hcall with hcall | ⟨t, ht, hcall⟩
          · exact .inl ⟨call, Draft.calls_pushText _ draft ▸ hcall, hname⟩
          · have hlength := TagRead.call_le hsigil hr ht hcall
            rw [hname] at hlength
            exact .inr (by omega)
        · exact .inr (by omega)

end Outline

end Stencil
