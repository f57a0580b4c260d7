import Mathlib.Data.Finset.Card
import Stencil.Library

set_option autoImplicit false

/-!
# Reachable templates

The search for reachable templates goes on for long enough to find all of them.
-/
namespace Stencil
namespace Library

inductive Reaches (l : Library) (held : List TemplateId) : TemplateId → Prop
  | held {id : TemplateId} (h : id ∈ held) : Reaches l held id
  | kept {id other : TemplateId} (h : Reaches l held id) (hkeeps : other ∈ l.keeps id) :
    Reaches l held other

variable {l : Library} {held ids : List TemplateId} {id other : TemplateId}

def Closed (l : Library) (ids : List TemplateId) : Prop :=
  ∀ id ∈ ids, ∀ other ∈ l.keeps id, other ∈ ids

theorem mem_expand :
    other ∈ (ids ++ ids.flatMap l.keeps).eraseDups ↔ other ∈ ids ∨ ∃ id ∈ ids, other ∈ l.keeps id := by
  rw [List.mem_eraseDups, List.mem_append, List.mem_flatMap]

theorem mem_reachIn_of_mem (n : Nat) (h : id ∈ ids) : id ∈ l.reachIn n ids := by
  induction n generalizing ids with
  | zero => exact h
  | succ n ih => exact ih (mem_expand.2 (.inl h))

theorem mem_reach_of_mem (h : id ∈ held) : id ∈ l.reach held := mem_reachIn_of_mem _ h

theorem mem_reachIn_of_closed (h : l.Closed ids) (n : Nat) : id ∈ l.reachIn n ids ↔ id ∈ ids := by
  induction n generalizing ids with
  | zero => rfl
  | succ n ih =>
    have hsame (other : TemplateId) :
        other ∈ (ids ++ ids.flatMap l.keeps).eraseDups ↔ other ∈ ids := by
      rw [mem_expand]
      exact ⟨fun hmem => hmem.elim (fun h => h) fun ⟨id, hid, hkeeps⟩ => h id hid other hkeeps, .inl⟩
    have hclosed : l.Closed (ids ++ ids.flatMap l.keeps).eraseDups := fun id hid other hkeeps =>
      (hsame other).2 (h id ((hsame id).1 hid) other hkeeps)
    exact (ih hclosed).trans (hsame _)

theorem mem_keeps :
    other ∈ l.keeps id ↔ ∃ t, l.get? id = some t ∧ Target.compiled other ∈ t.links.values := by
  unfold keeps
  cases l.get? id with
  | none => simp
  | some t =>
    rw [List.mem_filterMap]
    constructor
    · rintro ⟨target, htarget, hkept⟩
      cases target with
      | compiled id => cases hkept; exact ⟨t, rfl, htarget⟩
      | pending id => cases hkept
    · rintro ⟨_, ⟨⟩, htarget⟩
      exact ⟨_, htarget, rfl⟩

theorem mem_templates_of_keeps (h : other ∈ l.keeps id) : id ∈ l.templates.map Prod.fst := by
  unfold keeps get? at h
  cases hfind : l.templates.find? (fun entry => entry.1 = id) with
  | none => rw [hfind] at h; cases h
  | some entry =>
    have heq := List.find?_some hfind
    exact List.mem_map.2 ⟨entry, List.mem_of_find?_eq_some hfind, by simpa using heq⟩

def missing (l : Library) (ids : List TemplateId) : Finset TemplateId :=
  (l.templates.map Prod.fst).toFinset.filter (· ∉ ids)

theorem mem_missing : id ∈ l.missing ids ↔ id ∈ l.templates.map Prod.fst ∧ id ∉ ids := by
  rw [missing, Finset.mem_filter, List.mem_toFinset]

/-- A round that finds no further template is the last one needed. -/
theorem closed_reachIn (n : Nat) (h : (l.missing ids).card < n) : l.Closed (l.reachIn n ids) := by
  induction n generalizing ids with
  | zero => cases h
  | succ n ih =>
    rw [reachIn]
    by_cases hlt : (l.missing (ids ++ ids.flatMap l.keeps).eraseDups).card < n
    · exact ih hlt
    · have hsubset : l.missing (ids ++ ids.flatMap l.keeps).eraseDups ⊆ l.missing ids := by
        intro id hid
        obtain ⟨htemplate, hnone⟩ := mem_missing.1 hid
        exact mem_missing.2 ⟨htemplate, fun hmem => hnone (mem_expand.2 (.inl hmem))⟩
      have hsame := Finset.eq_of_subset_of_card_le hsubset (by omega)
      have hclosed : l.Closed (ids ++ ids.flatMap l.keeps).eraseDups := by
        intro id hid other hkeeps
        have hmem : id ∈ ids := by
          by_contra hnone
          have hmissing := mem_missing.2 ⟨mem_templates_of_keeps hkeeps, hnone⟩
          rw [← hsame] at hmissing
          exact (mem_missing.1 hmissing).2 hid
        exact mem_expand.2 (.inr ⟨id, hmem, hkeeps⟩)
      intro id hid other hkeeps
      rw [mem_reachIn_of_closed hclosed] at hid ⊢
      exact hclosed id hid other hkeeps

theorem closed_reach (l : Library) (held : List TemplateId) : l.Closed (l.reach held) := by
  by_cases hsome : ∃ id ∈ held, id ∈ l.templates.map Prod.fst
  · obtain ⟨id, hid, htemplate⟩ := hsome
    refine closed_reachIn _ ?_
    have hssubset : l.missing held ⊂ (l.templates.map Prod.fst).toFinset := by
      refine Finset.ssubset_iff_subset_ne.2 ⟨Finset.filter_subset _ _, fun heq => ?_⟩
      have hmem : id ∈ l.missing held := by
        rw [heq, List.mem_toFinset]
        exact htemplate
      exact (mem_missing.1 hmem).2 hid
    calc (l.missing held).card
      _ < (l.templates.map Prod.fst).toFinset.card := Finset.card_lt_card hssubset
      _ ≤ (l.templates.map Prod.fst).length := List.toFinset_card_le _
      _ = l.templates.length := List.length_map _
  · have hclosed : l.Closed held := fun id hid other hkeeps =>
      absurd ⟨id, hid, mem_templates_of_keeps hkeeps⟩ hsome
    intro id hid other hkeeps
    unfold reach at hid ⊢
    rw [mem_reachIn_of_closed hclosed] at hid ⊢
    exact hclosed id hid other hkeeps

theorem reaches_of_mem_reachIn (n : Nat) (h : id ∈ l.reachIn n ids)
    (hids : ∀ id ∈ ids, l.Reaches held id) : l.Reaches held id := by
  induction n generalizing ids with
  | zero => exact hids id h
  | succ n ih =>
    refine ih h fun other hother => ?_
    rcases mem_expand.1 hother with hmem | ⟨id, hid, hkeeps⟩
    · exact hids other hmem
    · exact .kept (hids id hid) hkeeps

theorem mem_reach_iff : id ∈ l.reach held ↔ l.Reaches held id := by
  constructor
  · intro h
    exact reaches_of_mem_reachIn _ h fun _ => .held
  · intro h
    induction h with
    | held h => exact mem_reach_of_mem h
    | kept _ hkeeps ih => exact l.closed_reach held _ ih _ hkeeps

end Library
end Stencil
