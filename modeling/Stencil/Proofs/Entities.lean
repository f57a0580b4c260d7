import Stencil.Text.Html

set_option autoImplicit false

/-!
# Entities

What escaping writes is read back by replacing the entities from left to right, whatever the text
held before. So two texts are never written alike (`Html.escape_reversible`).
-/
namespace Stencil.Html

/-- Replaces the entities from left to right. What begins no entity stands for itself. -/
def unescape : List Char → List Char
  | '&' :: 'a' :: 'm' :: 'p' :: ';' :: cs => '&' :: unescape cs
  | '&' :: 'l' :: 't' :: ';' :: cs => '<' :: unescape cs
  | '&' :: 'g' :: 't' :: ';' :: cs => '>' :: unescape cs
  | '&' :: 'q' :: 'u' :: 'o' :: 't' :: ';' :: cs => '"' :: unescape cs
  | '&' :: '#' :: '3' :: '9' :: ';' :: cs => '\'' :: unescape cs
  | c :: cs => c :: unescape cs
  | [] => []

theorem unescape_cons {c : Char} (h : c ≠ '&') (cs : List Char) :
    unescape (c :: cs) = c :: unescape cs := by
  rw [unescape] <;> (rintro _ rfl; contradiction)

theorem unescape_entity (c : Char) (cs : List Char) : unescape (entity c ++ cs) = c :: unescape cs := by
  by_cases hc : c ∈ specials
  · simp only [specials, List.mem_cons, List.not_mem_nil, or_false] at hc
    rcases hc with rfl | rfl | rfl | rfl | rfl <;> rfl
  · have hand : c ≠ '&' := by
      rintro rfl
      exact hc List.mem_cons_self
    rw [entity_of_not_mem hc, List.singleton_append, unescape_cons hand]

theorem unescape_escapeChars (cs : List Char) : unescape (escapeChars cs) = cs := by
  induction cs with
  | nil => rfl
  | cons c cs ih =>
    change unescape (entity c ++ escapeChars cs) = _
    rw [unescape_entity, ih]

/-- In an entity special characters stand nowhere but at its beginning. -/
theorem entity_special {c e : Char} {before after : List Char} (he : e ∈ specials)
    (h : entity c = before ++ e :: after) : c ∈ specials ∧ e = '&' ∧ before = [] := by
  by_cases hc : c ∈ specials
  · have hentity : specials.all (fun c => (entity c).head? == some '&' &&
        (entity c).tail.all (· ∉ specials)) = true := by decide
    obtain ⟨hhead, htail⟩ := Bool.and_eq_true_iff.1 (List.all_eq_true.1 hentity c hc)
    rw [h] at hhead htail
    cases before with
    | nil => exact ⟨hc, Option.some.inj (eq_of_beq hhead), rfl⟩
    | cons x before =>
      have hmem : e ∈ (x :: before ++ e :: after).tail := List.mem_append_right _ List.mem_cons_self
      exact absurd he (of_decide_eq_true (List.all_eq_true.1 htail e hmem))
  · rw [entity_of_not_mem hc] at h
    have hmem : e ∈ [c] := h ▸ List.mem_append_right _ List.mem_cons_self
    obtain rfl := List.mem_singleton.1 hmem
    exact absurd he hc

/-- The special characters of an escaped text are the beginnings of entities. -/
theorem escapeChars_special {cs before after : List Char} {e : Char} (he : e ∈ specials)
    (h : escapeChars cs = before ++ e :: after) :
    e = '&' ∧ ∃ c ∈ specials, entity c <+: e :: after := by
  induction cs generalizing before with
  | nil => cases before <;> cases h
  | cons c cs ih =>
    change entity c ++ escapeChars cs = _ at h
    rcases List.append_eq_append_iff.1 h with ⟨more, -, hmore⟩ | ⟨more, hentity, hmore⟩
    · exact ih hmore
    · cases more with
      | nil => exact @ih [] hmore.symm
      | cons x more =>
        obtain ⟨rfl, rfl⟩ := List.cons.inj hmore
        obtain ⟨hc, rfl, rfl⟩ := entity_special he hentity
        exact ⟨rfl, c, hc, escapeChars cs, by rw [hentity]; rfl⟩

theorem ne_of_mem_escape {text : String} {c : Char} (h : c ∈ (escape text).toList) :
    c ≠ '<' ∧ c ≠ '>' ∧ c ≠ '"' ∧ c ≠ '\'' := by
  rw [toList_escape] at h
  obtain ⟨before, after, hsplit⟩ := List.append_of_mem h
  refine ⟨?_, ?_, ?_, ?_⟩ <;> rintro rfl <;>
    exact absurd (escapeChars_special (by decide) hsplit).1 (by decide)

/-- Escaping writes an entity for each special character and nothing else differently, and that is
undone by replacing the entities again. -/
theorem escape_reversible (text : String) :
    escape text = String.ofList (text.toList.flatMap entity) ∧
      (∀ c ∈ (escape text).toList, c ≠ '<' ∧ c ≠ '>' ∧ c ≠ '"' ∧ c ≠ '\'') ∧
      (∀ before after, (escape text).toList = before ++ '&' :: after →
        ∃ c ∈ specials, entity c <+: '&' :: after) ∧
      unescape (escape text).toList = text.toList ∧
      (∀ other, escape other = escape text → other = text) ∧
      ∀ more, escape (text ++ more) = escape text ++ escape more := by
  have hback (text : String) : unescape (escape text).toList = text.toList := by
    rw [toList_escape, unescape_escapeChars]
  refine ⟨escape_eq text, fun c hc => ne_of_mem_escape hc, ?_, hback text, ?_, ?_⟩
  · intro before after hsplit
    rw [toList_escape] at hsplit
    exact (escapeChars_special (by decide) hsplit).2
  · intro other hother
    rw [← String.toList_inj, ← hback other, hother, hback text]
  · intro more
    rw [escape_eq, String.toList_append, escapeChars_append, String.ofList_append, ← escape_eq,
      ← escape_eq]

example : unescape (escape "&lt;'&").toList = "&lt;'&".toList := by decide

end Stencil.Html
