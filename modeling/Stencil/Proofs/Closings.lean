import Stencil.Proofs.Asking
import Stencil.Proofs.TagTexts

set_option autoImplicit false

/-!
# Closing tags of raw blocks

Braces stand in the name of a block only in brackets. So no closing tag of a raw block begins inside of
another, and with white space in it a closing tag is found in the same place.
-/
namespace Stencil

namespace Text

/-- Whether a text ends in brackets. The flag says whether it begins in some. -/
def bracketed (within : Bool) : List Char → Bool
  | [] => within
  | c :: cs => bracketed (if c = '[' then true else if c = ']' then false else within) cs

theorem bracketed_append (within : Bool) (xs ys : List Char) :
    bracketed within (xs ++ ys) = bracketed (bracketed within xs) ys := by
  induction xs generalizing within with
  | nil => rfl
  | cons x xs ih => exact ih _

theorem bracketed_of_not_mem {cs : List Char} (h : ∀ c ∈ cs, c ≠ '[' ∧ c ≠ ']') (within : Bool) :
    bracketed within cs = within := by
  induction cs with
  | nil => rfl
  | cons c cs ih =>
    obtain ⟨hopen, hclose⟩ := h c List.mem_cons_self
    rw [bracketed, if_neg hopen, if_neg hclose]
    exact ih fun x hx => h x (List.mem_cons_of_mem _ hx)

/-- What closes the brackets a text begins in leaves none open of its own. -/
theorem bracketed_false {cs : List Char} (h : bracketed true cs = false) :
    bracketed false cs = false := by
  induction cs with
  | nil => rfl
  | cons c cs ih =>
    rw [bracketed] at h ⊢
    split
    · next hopen => rwa [if_pos hopen] at h
    · next hopen =>
      rw [if_neg hopen] at h
      split
      · next hclose => rwa [if_pos hclose] at h
      · next hclose =>
        rw [if_neg hclose] at h
        exact ih h

def isMargin (c : Char) : Bool := isBlank c || c == '~' || c == '\x7b' || c == '\x7d'

/-- The text of a name: what stands around names may stand in its brackets only, and these close. -/
structure Named (cs : List Char) : Prop where
  closed : bracketed false cs = false
  margin : ∀ front c behind, cs = front ++ c :: behind → isMargin c = true →
    bracketed false front = true

theorem Named.nil : Named [] where
  closed := rfl
  margin := by
    intro front c behind h
    exact absurd h.symm (by simp)

theorem Named.append {xs ys : List Char} (hx : Named xs) (hy : Named ys) : Named (xs ++ ys) where
  closed := by rw [bracketed_append, hx.closed, hy.closed]
  margin := by
    intro front c behind h hc
    rcases List.append_eq_append_iff.1 h with ⟨between, rfl, hbetween⟩ | ⟨between, rfl, hbetween⟩
    · rw [bracketed_append, hx.closed]
      exact hy.margin between c behind hbetween hc
    · cases between with
      | nil =>
        rw [List.append_nil] at hx
        rw [← List.append_nil front, bracketed_append, hx.closed]
        exact hy.margin [] c behind hbetween.symm hc
      | cons x between =>
        obtain ⟨rfl, -⟩ := List.cons.inj hbetween
        exact hx.margin front c between rfl hc

theorem Named.of_unmargined {cs : List Char}
    (h : ∀ c ∈ cs, isMargin c = false ∧ c ≠ '[' ∧ c ≠ ']') : Named cs where
  closed := bracketed_of_not_mem (fun c hc => (h c hc).2) false
  margin := by
    rintro front c behind rfl hc
    rw [(h c (by simp)).1] at hc
    cases hc

theorem bracketed_true {cs : List Char} (h : ']' ∉ cs) : bracketed true cs = true := by
  induction cs with
  | nil => rfl
  | cons c cs ih =>
    have hc : c ≠ ']' := fun heq => h (heq ▸ List.mem_cons_self)
    rw [bracketed, if_neg hc, ite_self]
    exact ih fun hmem => h (List.mem_cons_of_mem _ hmem)

theorem Named.brackets {inner : List Char} (h : ']' ∉ inner) : Named ('[' :: (inner ++ [']'])) where
  closed := by
    change bracketed true (inner ++ [']']) = false
    rw [bracketed_append, bracketed_true h]
    rfl
  margin := by
    intro front c behind heq hc
    cases front with
    | nil =>
      obtain ⟨rfl, -⟩ := List.cons.inj heq
      cases hc
    | cons x front =>
      obtain ⟨rfl, hbehind⟩ := List.cons.inj heq
      rcases List.append_eq_append_iff.1 hbehind with ⟨between, rfl, hbetween⟩ | ⟨between, rfl, -⟩
      · cases between with
        | nil =>
          obtain ⟨rfl, -⟩ := List.cons.inj hbetween
          cases hc
        | cons y between => exact absurd hbetween (by simp)
      · exact bracketed_true fun hmem => h (List.mem_append_left _ hmem)

end Text

namespace Token

theorem isMargin_of_isNameChar {c : Char} (h : isNameChar c = true) :
    Text.isMargin c = false ∧ c ≠ '[' ∧ c ≠ ']' := by
  have hne {x : Char} (hx : isNameChar x = false) : c ≠ x := ne_of_isNameChar h hx
  refine ⟨?_, hne (by decide), hne (by decide)⟩
  have hblank : Text.isBlank c = false := by
    cases hc : Text.isBlank c with
    | false => rfl
    | true =>
      rw [isNameChar_of_isBlank hc] at h
      cases h
  have htilde : c ≠ '~' := hne (by decide)
  have hopen : c ≠ '\x7b' := hne (by decide)
  have hclose : c ≠ '\x7d' := hne (by decide)
  simp [Text.isMargin, hblank, htilde, hopen, hclose]

theorem named_of_symbol {c : Char} {kind : TokenKind} (h : symbol? c = some kind)
    (ht : kind.spells = true) : Text.Named [c] := by
  refine .of_unmargined fun x hx => ?_
  obtain rfl := List.mem_singleton.1 hx
  unfold symbol? at h
  split at h <;> cases h <;> first | decide | cases ht

theorem named_of_spells {cs rest : List Char} {t : Token} (h : read cs = .ok (t, rest))
    (ht : t.kind.spells = true) : Text.Named t.text := by
  obtain ⟨happend, hne⟩ := append_of_read h
  cases hfound : composite? cs with
  | none =>
    obtain ⟨c, text, htext⟩ := List.exists_cons_of_ne_nil hne
    rw [htext] at happend
    subst happend
    obtain ⟨hsymbol, hsingle, -⟩ := read_eq_symbol hfound h
    rw [hsingle]
    exact named_of_symbol hsymbol ht
  | some found =>
    cases (read_of_composite? hfound).symm.trans h
    unfold composite? at hfound
    rcases Option.or_eq_some_iff.1 hfound with hconst | ⟨-, hrest⟩
    · obtain ⟨split, -, he⟩ := Option.map_eq_some_iff.1 hconst
      cases he
      cases ht
    · rcases Option.or_eq_some_iff.1 hrest with hname | ⟨-, hspace⟩
      · rcases Option.or_eq_some_iff.1 (of_tokenOf hname) with hrun | ⟨-, hbracket⟩
        · exact .of_unmargined fun x hx =>
            isMargin_of_isNameChar (forall_of_run? hrun x hx)
        · obtain ⟨inner, htext, -, hinner⟩ := bracketed?_eq_some hbracket
          rw [htext]
          exact .brackets hinner
      · obtain ⟨split, -, he⟩ := Option.map_eq_some_iff.1 hspace
        cases he
        cases ht

theorem Lexes.exists_read {tail : List Char} {ts : List Token} (h : Lexes tail ts) {t : Token}
    (ht : t ∈ ts) : ∃ cs rest, read cs = .ok (t, rest) := by
  induction h with
  | nil => cases ht
  | cons _ hread _ ih =>
    rcases List.mem_cons.1 ht with rfl | ht
    · exact ⟨_, _, hread⟩
    · exact ih ht

theorem named_texts {ts : List Token} (h : ∀ t ∈ ts, Text.Named t.text) : Text.Named (texts ts) := by
  induction ts with
  | nil => exact .nil
  | cons t ts ih =>
    rw [texts_cons]
    exact (h t List.mem_cons_self).append (ih fun u hu => h u (List.mem_cons_of_mem _ hu))

theorem Lexes.named {tail : List Char} {ts : List Token} (h : Lexes tail ts) :
    Text.Named (texts (headOf ts)) := by
  refine named_texts fun t ht => ?_
  have hspells : t.kind.spells = true := by
    have hall := List.all_eq_true.1 (List.all_takeWhile (p := fun t : Token => t.kind.spells)) t ht
    exact hall
  have hmem := (List.dropWhile_sublist _).mem ((List.takeWhile_sublist _).mem ht)
  obtain ⟨cs, rest, hread⟩ := h.exists_read hmem
  exact named_of_spells hread hspells

end Token

namespace RawEnd
variable {name : List Char}

structure Front (cs : List Char) : Prop where
  begins : ∃ x rest, cs = '\x7b' :: '\x7b' :: '\x7b' :: '\x7b' :: x :: rest ∧ x ≠ '\x7b' ∧ '\x7b' ∉ rest
  plain : ∀ c ∈ cs, c ≠ '[' ∧ c ≠ ']'
  brace : '\x7d' ∉ cs

structure Behind (cs : List Char) : Prop where
  margin : ∀ c ∈ cs, Text.isMargin c = true ∧ c ≠ '\x7b'
  brace : '\x7d' ∈ cs

theorem Front.intro {before : List Char} (h : ∀ x ∈ before, Text.isBlank x = true) (trims : Bool) :
    Front (List.replicate 4 '\x7b' ++ tildeIf trims ++ ['/'] ++ before) := by
  have hnot {c : Char} (hc : Text.isBlank c = false) : c ∉ before := by
    intro hmem
    rw [h c hmem] at hc
    cases hc
  have hmarks : ∀ c ∈ List.replicate 4 '\x7b' ++ tildeIf trims ++ ['/'], c = '\x7b' ∨ c = '~' ∨ c = '/' := by
    cases trims <;> simp [tildeIf, List.replicate]
  refine ⟨?_, fun c hc => ?_, fun hmem => ?_⟩
  · have hbrace : '\x7b' ∉ before := hnot (by decide)
    cases trims with
    | true => exact ⟨'~', '/' :: before, rfl, by decide, by simpa using hbrace⟩
    | false => exact ⟨'/', before, rfl, by decide, hbrace⟩
  · rcases List.mem_append.1 hc with hc | hc
    · rcases hmarks c hc with rfl | rfl | rfl <;> decide
    · constructor
      · rintro rfl
        exact hnot (by decide) hc
      · rintro rfl
        exact hnot (by decide) hc
  · rcases List.mem_append.1 hmem with hc | hc
    · rcases hmarks _ hc with heq | heq | heq <;> cases heq
    · exact hnot (by decide) hc

theorem Behind.intro {after : List Char} (h : ∀ x ∈ after, Text.isBlank x = true) (trims : Bool) :
    Behind (after ++ tildeIf trims ++ List.replicate 4 '\x7d') := by
  have hmarks : ∀ c ∈ tildeIf trims ++ List.replicate 4 '\x7d', c = '~' ∨ c = '\x7d' := by
    cases trims <;> simp [tildeIf, List.replicate]
  refine ⟨fun c hc => ?_, by simp⟩
  rw [List.append_assoc] at hc
  rcases List.mem_append.1 hc with hc | hc
  · refine ⟨by simp [Text.isMargin, h c hc], ?_⟩
    rintro rfl
    exact absurd (h _ hc) (by decide)
  · rcases hmarks c hc with rfl | rfl <;> decide

theorem Written.split {trimsBefore trimsAfter : Bool} {text : List Char}
    (h : Written name trimsBefore trimsAfter text) :
    ∃ front behind, text = front ++ (name ++ behind) ∧ Front front ∧ Behind behind := by
  obtain ⟨hbefore, hafter, -⟩ := h
  refine ⟨_, _, ?_, .intro hbefore trimsBefore, .intro hafter trimsAfter⟩
  simp only [fromName, List.append_assoc]

theorem Front.of_append {front front' before inside more more' beyond : List Char} (h : Front front)
    (h' : Front front') (hbefore : before ≠ []) (heq : before ++ '\x7b' :: inside = front ++ more)
    (heq' : '\x7b' :: inside ++ beyond = front' ++ more') :
    ∃ within, before = front ++ within ∧ more = within ++ '\x7b' :: inside := by
  rcases List.append_eq_append_iff.1 heq with ⟨within, hfront, hinside⟩ | hwithin
  · cases within with
    | nil => exact ⟨[], by rw [hfront, List.append_nil, List.append_nil], hinside.symm⟩
    | cons c within =>
      exfalso
      obtain ⟨rfl, rfl⟩ := List.cons.inj hinside
      obtain ⟨x, rest, rfl, hx, hrest⟩ := h.begins
      obtain ⟨x', rest', rfl, -, -⟩ := h'.begins
      simp only [List.cons_append, List.cons.injEq, true_and] at heq'
      match before, hfront with
      | [], _ => exact hbefore rfl
      | [_], hfront =>
        cases hfront
        exact hx (List.cons.inj (List.cons.inj (List.cons.inj heq').2).2).1
      | [_, _], hfront =>
        cases hfront
        exact hx (List.cons.inj (List.cons.inj heq').2).1
      | [_, _, _], hfront =>
        cases hfront
        exact hx (List.cons.inj heq').1
      | [_, _, _, _], hfront =>
        cases hfront
        exact hx rfl
      | _ :: _ :: _ :: _ :: _ :: before, hfront =>
        cases hfront
        exact hrest (List.mem_append_right _ List.mem_cons_self)
  · obtain ⟨within, hbefore, hmore⟩ := hwithin
    exact ⟨within, hbefore, hmore⟩

theorem Behind.of_append {behind within inside : List Char} (h : Behind behind)
    (heq : name ++ behind = within ++ '\x7b' :: inside) :
    ∃ last, name = within ++ '\x7b' :: last ∧ inside = last ++ behind := by
  rcases List.append_eq_append_iff.1 heq with ⟨last, -, hbehind⟩ | ⟨last, hname, hinside⟩
  · exact absurd rfl (h.margin '\x7b' (by rw [hbehind]; simp)).2
  · cases last with
    | nil => exact absurd rfl (h.margin '\x7b' (by rw [← List.nil_append behind, ← hinside]; simp)).2
    | cons c last =>
      obtain ⟨rfl, rfl⟩ := List.cons.inj hinside
      exact ⟨last, hname, rfl⟩

/-- What stands behind a name cannot reach over another name: between the two there would be a brace that
closes a tag. -/
theorem Behind.not_in_front (hname : Text.Named name) (hne : name ≠ [])
    {behind between beyond more : List Char} (h : Behind behind) (hbetween : '\x7d' ∉ between)
    (heq : behind ++ beyond = between ++ (name ++ more)) : False := by
  rcases List.append_eq_append_iff.1 heq with ⟨last, rfl, -⟩ | ⟨last, hbehind, hnamed⟩
  · exact hbetween (List.mem_append_left _ h.brace)
  · cases last with
    | nil =>
      rw [List.append_nil] at hbehind
      exact hbetween (hbehind ▸ h.brace)
    | cons x last =>
      have hx : Text.isMargin x = true := (h.margin x (by rw [hbehind]; simp)).1
      obtain ⟨y, name', rfl⟩ := List.exists_cons_of_ne_nil hne
      obtain rfl : y = x := (List.cons.inj hnamed).1
      exact absurd (hname.margin [] y name' rfl hx) (by decide)

/-- A name that ends with what a closing tag has in front of the name, in brackets, and with a beginning
of the name itself, is not followed by what stands behind a name: it would be in the brackets. -/
theorem Front.not_in_name (hname : Text.Named name) {within front between behind beyond more : List Char}
    (h : Front front) (hbehind : Behind behind) (hwithin : Text.bracketed false within = true)
    (hwhole : name = within ++ (front ++ between))
    (heq : name ++ more = between ++ (behind ++ beyond)) : False := by
  have hlonger : between.length < name.length := by
    obtain ⟨x, rest, rfl, -, -⟩ := h.begins
    rw [hwhole]
    simp only [List.length_append, List.length_cons]
    omega
  rcases List.append_eq_append_iff.1 heq with ⟨last, hbetween, -⟩ | ⟨last, hnamed, hlast⟩
  · rw [hbetween, List.length_append] at hlonger
    omega
  · cases last with
    | nil =>
      rw [hnamed, List.append_nil] at hlonger
      exact Nat.lt_irrefl _ hlonger
    | cons c last =>
      obtain ⟨x, behind', rfl⟩ := List.exists_cons_of_ne_nil (List.ne_nil_of_mem hbehind.brace)
      obtain rfl : x = c := (List.cons.inj hlast).1
      have hinside := hname.margin between x last hnamed (hbehind.margin x List.mem_cons_self).1
      have hclosed := hname.closed
      rw [hwhole, Text.bracketed_append, Text.bracketed_append, hwithin,
        Text.bracketed_of_not_mem h.plain] at hclosed
      rw [Text.bracketed_false hclosed] at hinside
      cases hinside

/-- A closing tag does not begin inside of another. -/
theorem not_overlapping (hname : Text.Named name) {before inside beyond : List Char}
    {trims trims' after after' : Bool} (h : Written name trims after (before ++ inside))
    (h' : Written name trims' after' (inside ++ beyond)) (hbefore : before ≠ []) : inside = [] := by
  obtain ⟨front, behind, heq, hfront, hbehind⟩ := h.split
  obtain ⟨front', behind', heq', hfront', -⟩ := h'.split
  cases inside with
  | nil => rfl
  | cons c inside =>
    exfalso
    obtain rfl : c = '\x7b' := by
      obtain ⟨x, rest, rfl, -, -⟩ := hfront'.begins
      exact (List.cons.inj heq').1
    obtain ⟨within, -, hmore⟩ := hfront.of_append hfront' hbefore heq heq'
    obtain ⟨last, hlast, rfl⟩ := hbehind.of_append hmore
    have hwithin : Text.bracketed false within = true := hname.margin within '\x7b' last hlast rfl
    have hcut : '\x7b' :: last ++ (behind ++ beyond) = front' ++ (name ++ behind') := by
      rw [← heq']
      simp
    rcases List.append_eq_append_iff.1 hcut with ⟨between, hbraces, hrest⟩ | ⟨between, hbraces, hrest⟩
    · have hbetween : '\x7d' ∉ between := fun hmem =>
        hfront'.brace (hbraces ▸ List.mem_append_right _ hmem)
      exact hbehind.not_in_front hname (by rw [hlast]; simp) hbetween hrest
    · have hwhole : name = within ++ (front' ++ between) := hbraces ▸ hlast
      exact hfront'.not_in_name hname hbehind hwithin hwhole hrest

/-- White space in a closing tag does not move it: it does not let another begin in front of it. -/
theorem rawBody?_padded (hname : Text.Named name) {body text text' : List Char}
    {trims after : Bool} (hwritten' : Written name trims after text')
    (h : rawBody? name (body ++ text) = some (body, ⟨trims, after, []⟩)) :
    rawBody? name (body ++ text') = some (body, ⟨trims, after, []⟩) := by
  induction body with
  | nil => exact hwritten'.rawBody?_nil
  | cons c body ih =>
    rw [List.cons_append, rawBody?] at h
    cases hread : RawEnd.read? name (c :: (body ++ text)) with
    | some closer =>
      rw [hread] at h
      cases h
    | none =>
      rw [hread] at h
      obtain ⟨found, hfound, he⟩ := Option.map_eq_some_iff.1 h
      obtain ⟨hbody, hcloser⟩ := Prod.mk.inj he
      obtain rfl : found = (body, ⟨trims, after, []⟩) :=
        Prod.ext (List.cons.inj hbody).2 hcloser
      have hnone : RawEnd.read? name (c :: (body ++ text')) = none := by
        cases hread' : RawEnd.read? name (c :: (body ++ text')) with
        | none => rfl
        | some closer =>
          obtain ⟨other, hother, heq⟩ := written_of_read? hread'
          rw [← List.cons_append] at heq hread
          obtain ⟨beyond, hinside⟩ : ∃ beyond, c :: body = other ++ beyond := by
            rcases List.append_eq_append_iff.1 heq with ⟨inside, rfl, htext'⟩ | ⟨beyond, hinside, -⟩
            · obtain rfl := not_overlapping hname hother (htext' ▸ hwritten') (List.cons_ne_nil _ _)
              exact ⟨[], by rw [List.append_nil, List.append_nil]⟩
            · exact ⟨beyond, hinside⟩
          rw [hinside, List.append_assoc, hother.read?] at hread
          cases hread
      rw [List.cons_append, rawBody?, hnone]
      exact congrArg (Option.map _) (ih hfound)

end RawEnd

end Stencil
