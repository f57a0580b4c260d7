import Stencil.Proofs.Tags

set_option autoImplicit false

/-!
# Where tags end

A tag, a comment and a raw block end in the same place whatever is written behind them.
-/
namespace Stencil

theorem takeTilde_cons {c : Char} (hc : c ≠ '~') (cs : List Char) :
    takeTilde (c :: cs) = (false, c :: cs) := by
  unfold takeTilde
  split
  · next heq => exact absurd (List.cons.inj heq).1 hc
  · rfl

theorem takeTilde_append {cs : List Char} (hne : cs ≠ []) (more : List Char) :
    takeTilde (cs ++ more) = ((takeTilde cs).1, (takeTilde cs).2 ++ more) := by
  obtain ⟨c, cs, rfl⟩ := List.exists_cons_of_ne_nil hne
  by_cases hc : c = '~'
  · subst hc
    rfl
  · rw [List.cons_append, takeTilde_cons hc, takeTilde_cons hc]
    rfl

theorem takeTilde_suffix (cs : List Char) : (takeTilde cs).2 <:+ cs := by
  unfold takeTilde
  split
  · exact List.suffix_cons _ _
  · exact List.suffix_refl _

theorem mem_of_takeTilde {cs : List Char} (h : (takeTilde cs).1 = true) : '~' ∈ cs := by
  unfold takeTilde at h
  split at h
  · exact List.mem_cons_self
  · cases h

namespace Sigil

/-- An exclamation mark opens a long comment only with two dashes behind it. -/
theorem take_comment {cs : List Char} (h : ∀ ds, cs ≠ '-' :: '-' :: ds) :
    take ('!' :: cs) = (.comment, cs) := by
  unfold take
  split
  · next heq => exact absurd (List.cons.inj heq).2 (h _)
  · next heq => rw [(List.cons.inj heq).2]
  · next heq => simp at heq
  · next heq => simp at heq
  · next heq => simp at heq
  · next heq => simp at heq
  · next heq => simp at heq
  · next hnot _ _ _ _ _ => exact absurd rfl (hnot cs)

theorem take_escaped {c : Char} (hc : c ∉ ['!', '&', '#', '^', '/', '>']) (cs : List Char) :
    take (c :: cs) = (.escaped, c :: cs) := by
  simp only [List.mem_cons, List.not_mem_nil, or_false, not_or] at hc
  unfold take
  split
  all_goals first | rfl | (next heq => simp_all)

theorem take_suffix (cs : List Char) : (take cs).2 <:+ cs := by
  unfold take
  split
  · exact List.suffix_append ['!', '-', '-'] _
  all_goals first | exact List.suffix_cons _ _ | exact List.suffix_refl _

theorem take_append {cs : List Char} (h : '\x7d' ∈ (take cs).2) (more : List Char) :
    take (cs ++ more) = ((take cs).1, (take cs).2 ++ more) := by
  match cs with
  | [] => cases h
  | c :: cs =>
    rw [List.cons_append]
    by_cases hc : c ∈ ['!', '&', '#', '^', '/', '>']
    · simp only [List.mem_cons, List.not_mem_nil, or_false] at hc
      rcases hc with rfl | rfl | rfl | rfl | rfl | rfl
      · by_cases hlong : ∃ ds, cs = '-' :: '-' :: ds
        · obtain ⟨ds, rfl⟩ := hlong
          rfl
        · have hcs : ∀ ds, cs ≠ '-' :: '-' :: ds := fun ds heq => hlong ⟨ds, heq⟩
          rw [take_comment hcs] at h ⊢
          refine take_comment fun ds heq => ?_
          match cs with
          | [] => cases h
          | [d] =>
            cases heq
            exact absurd h (by decide)
          | d :: e :: cs =>
            cases heq
            exact hcs _ rfl
      all_goals rfl
    · rw [take_escaped hc, take_escaped hc]
      rfl

end Sigil

namespace Opener

theorem read_raw_eq (cs : List Char) :
    read ('\x7b' :: '\x7b' :: cs) = ⟨.raw, (takeTilde cs).1, (takeTilde cs).2⟩ := rfl

theorem read_triple_eq {c : Char} (hc : c ≠ '\x7b') (cs : List Char) :
    read ('\x7b' :: c :: cs) = ⟨.triple, (takeTilde (c :: cs)).1, (takeTilde (c :: cs)).2⟩ := by
  unfold read
  split
  · next heq => exact absurd (List.cons.inj (List.cons.inj heq).2).1 hc
  · next heq => rw [(List.cons.inj heq).2]
  · next hnot => exact absurd rfl (hnot _)

theorem read_eq {c : Char} (hc : c ≠ '\x7b') (cs : List Char) :
    read (c :: cs) = ⟨(Sigil.take (takeTilde (c :: cs)).2).1, (takeTilde (c :: cs)).1,
      (Sigil.take (takeTilde (c :: cs)).2).2⟩ := by
  unfold read
  split
  · next heq => exact absurd (List.cons.inj heq).1 hc
  · next heq => exact absurd (List.cons.inj heq).1 hc
  · rfl

/-- The beginning of a tag is the same with more behind it, if it is followed by anything that can
end the tag. -/
theorem read_append {cs : List Char} (h : '\x7d' ∈ (read cs).rest) (more : List Char) :
    read (cs ++ more) = ⟨(read cs).sigil, (read cs).trims, (read cs).rest ++ more⟩ := by
  match cs with
  | [] => cases h
  | c :: cs =>
    by_cases hc : c = '\x7b'
    · subst hc
      match cs with
      | [] => cases h
      | d :: ds =>
        by_cases hd : d = '\x7b'
        · subst hd
          have hne : ds ≠ [] := by
            rintro rfl
            cases h
          rw [List.cons_append, List.cons_append, read_raw_eq, read_raw_eq, takeTilde_append hne]
        · rw [List.cons_append, List.cons_append, read_triple_eq hd, read_triple_eq hd,
            ← List.cons_append, takeTilde_append (List.cons_ne_nil d ds)]
    · rw [read_eq hc] at h ⊢
      rw [List.cons_append, read_eq hc, ← List.cons_append,
        takeTilde_append (List.cons_ne_nil c cs), Sigil.take_append h]

theorem rest_suffix (cs : List Char) : (read cs).rest <:+ cs := by
  unfold read
  split
  · exact (takeTilde_suffix _).trans (List.suffix_append ['\x7b', '\x7b'] _)
  · exact (takeTilde_suffix _).trans (List.suffix_cons _ _)
  · exact (Sigil.take_suffix _).trans (takeTilde_suffix _)

theorem mem_of_trims {cs : List Char} (h : (read cs).trims = true) : '~' ∈ cs := by
  unfold read at h
  split at h
  · exact List.mem_cons_of_mem _ (List.mem_cons_of_mem _ (mem_of_takeTilde h))
  · exact List.mem_cons_of_mem _ (mem_of_takeTilde h)
  · exact mem_of_takeTilde h

end Opener

namespace Text
variable {mark cs rest : List Char}

theorem strip?_append (mark rest : List Char) : strip? mark (mark ++ rest) = some rest := by
  induction mark with
  | nil => rfl
  | cons m mark ih =>
    rw [List.cons_append, strip?, if_pos rfl]
    exact ih

/-- The first place where a mark stands is the same with more text behind it: at an earlier place
there is text enough to see that it does not stand there. -/
theorem after?_append (h : after? mark cs = some rest) (more : List Char) :
    (∃ before, cs = before ++ (mark ++ rest)) ∧ after? mark (cs ++ more) = some (rest ++ more) := by
  induction cs with
  | nil => cases h
  | cons c cs ih =>
    unfold after? at h
    split at h
    · next hstrip =>
      cases h
      have heq := strip?_eq_some hstrip
      refine ⟨⟨[], heq⟩, ?_⟩
      rw [List.cons_append, after?, ← List.cons_append, heq, List.append_assoc, strip?_append]
    · next hstrip =>
      obtain ⟨⟨before, hcs⟩, hafter⟩ := ih h
      refine ⟨⟨c :: before, by rw [hcs]; rfl⟩, ?_⟩
      have hnone : strip? mark (c :: (cs ++ more)) = none := by
        cases hmore : strip? mark (c :: (cs ++ more)) with
        | none => rfl
        | some found =>
          have hlength : mark.length ≤ (c :: cs).length := by
            rw [hcs]
            simp only [List.length_cons, List.length_append]
            omega
          have heq : c :: cs ++ more = mark ++ found := strip?_eq_some hmore
          obtain ⟨behind, hbehind⟩ := List.prefix_of_prefix_length_le
            (heq ▸ List.prefix_append mark found) (List.prefix_append (c :: cs) more) hlength
          rw [← hbehind, strip?_append] at hstrip
          cases hstrip
      rw [List.cons_append, after?, hnone]
      exact hafter

end Text

def tildeIf (trims : Bool) : List Char := if trims then ['~'] else []

theorem takeTilde_tildeIf (trims : Bool) {cs : List Char} (h : cs.head? ≠ some '~') :
    takeTilde (tildeIf trims ++ cs) = (trims, cs) := by
  cases trims with
  | true => rfl
  | false =>
    change takeTilde cs = _
    unfold takeTilde
    split
    · exact absurd rfl h
    · rfl

theorem tildeIf_takeTilde (cs : List Char) :
    tildeIf (takeTilde cs).1 ++ (takeTilde cs).2 = cs := by
  unfold takeTilde
  split <;> rfl

theorem exists_blanks (cs : List Char) : ∃ blanks, cs = blanks ++ cs.dropWhile Text.isBlank ∧
    ∀ x ∈ blanks, Text.isBlank x = true :=
  ⟨cs.takeWhile Text.isBlank, List.takeWhile_append_dropWhile.symm,
    List.all_eq_true.1 List.all_takeWhile⟩

theorem dropWhile_blanks {blanks cs : List Char} (hblanks : ∀ x ∈ blanks, Text.isBlank x = true)
    (h : ∀ x ∈ cs.head?, Text.isBlank x = false) :
    (blanks ++ cs).dropWhile Text.isBlank = cs := by
  rw [List.dropWhile_append_of_pos hblanks]
  cases cs with
  | nil => rfl
  | cons c cs => rw [List.dropWhile_cons_of_neg (by rw [h c rfl]; exact Bool.false_ne_true)]

namespace RawEnd

def fromName (name blanks : List Char) (trimsAfter : Bool) : List Char :=
  name ++ blanks ++ tildeIf trimsAfter ++ List.replicate 4 '\x7d'

inductive Written (name : List Char) (trimsBefore trimsAfter : Bool) : List Char → Prop
  | mk {before after : List Char} (hbefore : ∀ x ∈ before, Text.isBlank x = true)
    (hafter : ∀ x ∈ after, Text.isBlank x = true)
    (hname : ∀ x ∈ (fromName name after trimsAfter).head?, Text.isBlank x = false) :
    Written name trimsBefore trimsAfter (List.replicate 4 '\x7b' ++ tildeIf trimsBefore ++ ['/'] ++
      before ++ fromName name after trimsAfter)

variable {name cs text : List Char} {closer : RawEnd} {trimsBefore trimsAfter : Bool}

theorem Written.read? (h : Written name trimsBefore trimsAfter text) (rest : List Char) :
    RawEnd.read? name (text ++ rest) = some ⟨trimsBefore, trimsAfter, rest⟩ := by
  obtain ⟨hbefore, hafter, hname⟩ := h
  rename_i before after
  have hhead : ∀ x ∈ (fromName name after trimsAfter ++ rest).head?, Text.isBlank x = false := by
    have hne : fromName name after trimsAfter ≠ [] := by simp [fromName]
    obtain ⟨c, cs, hcs⟩ := List.exists_cons_of_ne_nil hne
    rw [hcs] at hname ⊢
    exact hname
  have hclose : ∀ x ∈ (tildeIf trimsAfter ++ (List.replicate 4 '\x7d' ++ rest)).head?,
      Text.isBlank x = false := by
    intro x hx
    cases trimsAfter <;> cases hx <;> decide
  have hsplit : fromName name after trimsAfter ++ rest =
      name ++ (after ++ (tildeIf trimsAfter ++ (List.replicate 4 '\x7d' ++ rest))) := by
    simp only [fromName, List.append_assoc]
  unfold RawEnd.read?
  simp only [List.append_assoc, Text.strip?_append, Option.bind_eq_bind, Option.bind_some]
  rw [takeTilde_tildeIf trimsBefore (by simp)]
  simp only [Text.strip?_append, Option.bind_some]
  rw [dropWhile_blanks hbefore hhead, hsplit]
  simp only [Text.strip?_append, Option.bind_some]
  rw [dropWhile_blanks hafter hclose, takeTilde_tildeIf trimsAfter (by simp [List.replicate])]
  simp only [Text.strip?_append, Option.bind_some]
  rfl

theorem Written.rawBody?_nil (h : Written name trimsBefore trimsAfter text) :
    rawBody? name text = some ([], ⟨trimsBefore, trimsAfter, []⟩) := by
  have hread := h.read? []
  rw [List.append_nil] at hread
  unfold rawBody?
  rw [hread]

theorem written_of_read? (h : RawEnd.read? name cs = some closer) :
    ∃ text, Written name closer.trimsBefore closer.trimsAfter text ∧ cs = text ++ closer.rest := by
  simp only [RawEnd.read?, Option.bind_eq_bind, Option.bind_eq_some_iff, Option.pure_def,
    Option.some.injEq] at h
  obtain ⟨opened, hopened, inside, hinside, named, hnamed, rest, hrest, rfl⟩ := h
  obtain ⟨before, hbefore, hblanks⟩ := exists_blanks inside
  obtain ⟨after, hafter, hblanks'⟩ := exists_blanks named
  have hopen := tildeIf_takeTilde opened
  have hlast := tildeIf_takeTilde (named.dropWhile Text.isBlank)
  rw [Text.strip?_eq_some hrest] at hlast
  rw [Text.strip?_eq_some hinside] at hopen
  generalize (takeTilde opened).1 = trimsBefore at hopen
  generalize (takeTilde (named.dropWhile Text.isBlank)).1 = trimsAfter at hlast
  have hname : inside.dropWhile Text.isBlank = fromName name after trimsAfter ++ rest := by
    calc inside.dropWhile Text.isBlank = name ++ named := Text.strip?_eq_some hnamed
      _ = name ++ (after ++ named.dropWhile Text.isBlank) := congrArg (name ++ ·) hafter
      _ = fromName name after trimsAfter ++ rest := by
        rw [← hlast]
        simp only [fromName, List.append_assoc]
  refine ⟨_, .mk hblanks hblanks' ?_, ?_⟩
  · intro x hx
    have hhead : (inside.dropWhile Text.isBlank).head? = some x := by
      rw [hname, List.head?_append, hx]
      rfl
    have hnot := List.head?_dropWhile_not Text.isBlank inside
    rw [hhead] at hnot
    exact hnot
  · rw [Text.strip?_eq_some hopened, ← hopen, hbefore, hname]
    simp only [List.append_assoc]

theorem count_blanks {blanks : List Char} (h : ∀ x ∈ blanks, Text.isBlank x = true) :
    blanks.count '\x7d' = 0 :=
  List.count_eq_zero_of_not_mem fun hmem => absurd (h _ hmem) (by decide)

theorem count_tildeIf (trims : Bool) : (tildeIf trims).count '\x7d' = 0 := by
  cases trims <;> rfl

/-- A closing tag has four braces besides those of the name. -/
theorem Written.count (h : Written name trimsBefore trimsAfter text) :
    text.count '\x7d' = name.count '\x7d' + 4 := by
  obtain ⟨hbefore, hafter, -⟩ := h
  simp only [fromName, List.count_append, count_blanks hbefore, count_blanks hafter, count_tildeIf]
  simp

theorem Written.last (h : Written name trimsBefore trimsAfter text) :
    text.getLast? = some '\x7d' := by
  obtain ⟨-, -, -⟩ := h
  unfold fromName
  rw [List.getLast?_append, List.getLast?_append]
  rfl

theorem Written.tilde (h : Written name trimsBefore trimsAfter text) (htrims : trimsAfter = true) :
    '~' ∈ text := by
  obtain ⟨-, -, -⟩ := h
  subst htrims
  simp [fromName, tildeIf]

/-- If a closing tag stands further on, none that is begun before it can reach beyond the end of the
text: it would have all the braces of the other, and one more. -/
theorem read?_append_none {before rest : List Char} (hcs : cs = before ++ (text ++ rest))
    (htext : Written name trimsBefore trimsAfter text) (h : RawEnd.read? name cs = none)
    (more : List Char) : RawEnd.read? name (cs ++ more) = none := by
  cases hmore : RawEnd.read? name (cs ++ more) with
  | none => rfl
  | some closer =>
    obtain ⟨other, hother, heq⟩ := written_of_read? hmore
    have hinside : ∀ behind, cs ≠ other ++ behind := by
      rintro behind rfl
      rw [hother.read?] at h
      cases h
    rcases List.append_eq_append_iff.1 heq with ⟨beyond, hbeyond, -⟩ | ⟨behind, hbehind, -⟩
    · have hne : beyond ≠ [] := by
        rintro rfl
        exact hinside [] (by rw [hbeyond, List.append_nil, List.append_nil])
      have hlast := hother.last
      rw [hbeyond, List.getLast?_append, List.getLast?_eq_some_getLast hne] at hlast
      have hmem : '\x7d' ∈ beyond := by
        have hget : beyond.getLast hne = '\x7d' := Option.some.inj hlast
        exact hget ▸ List.getLast_mem hne
      have hpositive := List.count_pos_iff.2 hmem
      have hcount := hother.count
      rw [hbeyond, hcs, List.count_append, List.count_append, List.count_append,
        htext.count] at hcount
      omega
    · exact absurd hbehind (hinside behind)

end RawEnd

/-- A raw body ends at the same closing tag with more text behind that. -/
theorem rawBody?_append {name cs body : List Char} {closer : RawEnd}
    (h : rawBody? name cs = some (body, closer)) (more : List Char) :
    (∃ text, RawEnd.Written name closer.trimsBefore closer.trimsAfter text ∧
      cs = body ++ (text ++ closer.rest)) ∧
      rawBody? name (cs ++ more) =
        some (body, ⟨closer.trimsBefore, closer.trimsAfter, closer.rest ++ more⟩) := by
  induction cs generalizing body with
  | nil =>
    unfold rawBody? at h
    split at h
    · next hread =>
      cases h
      exact absurd (RawEnd.length_lt_of_read? hread) (Nat.not_lt_zero _)
    · cases h
  | cons c cs ih =>
    unfold rawBody? at h
    split at h
    · next hread =>
      cases h
      obtain ⟨text, hwritten, hcs⟩ := RawEnd.written_of_read? hread
      refine ⟨⟨text, hwritten, hcs⟩, ?_⟩
      have hmore := hwritten.read? (closer.rest ++ more)
      rw [← List.append_assoc, ← hcs] at hmore
      unfold rawBody?
      rw [hmore]
    · next hread =>
      obtain ⟨⟨body', closer'⟩, hfound, he⟩ := Option.map_eq_some_iff.1 h
      cases he
      obtain ⟨⟨text, hwritten, hcs⟩, hmore⟩ := ih hfound
      have hcons : c :: cs = (c :: body') ++ (text ++ closer'.rest) := by
        rw [hcs]
        rfl
      refine ⟨⟨text, hwritten, hcons⟩, ?_⟩
      have hnone := RawEnd.read?_append_none hcons hwritten hread more
      rw [List.cons_append] at hnone ⊢
      rw [rawBody?, hnone]
      dsimp only
      rw [hmore]
      rfl

def Sigil.isOrdinary : Sigil → Bool
  | .raw | .comment | .longComment | .inclusion => false
  | _ => true

namespace TagRead
open Cursor
variable {d : Dialect} {place : Option Branch} {left : Nat} {sigil : Sigil} {trims : Bool}
  {cs : List Char}

theorem read_ordinary (hs : sigil.isOrdinary = true) (left : Nat) :
    read d place left ⟨sigil, trims, cs⟩ = (do
      let ⟨c, hc⟩ ← enter cs
      let tag ← c.tag d place sigil
      return ofAhead hc (← closed sigil.extraBraces tag)) := by
  cases sigil with
  | raw => cases hs
  | comment => cases hs
  | longComment => cases hs
  | inclusion => cases hs
  | _ => rfl

def Gives {n : Nat} (x : Except Failure (TagRead n)) (tag : Option Tag) (trims : Bool)
    (rest : List Char) : Prop :=
  ∃ r, x = .ok r ∧ r.tag = tag ∧ r.trims = trims ∧ r.rest = rest

variable {tag : Option Tag} {after : Bool} {rest : List Char}

theorem gives_ordinary (hs : sigil.isOrdinary = true) :
    Gives (read d place left ⟨sigil, trims, cs⟩) tag after rest ↔
      ∃ p a, enter cs = .ok p ∧ enclosed sigil.extraBraces (p.1.tag d place sigil) = .ok a ∧
        some a.result.1 = tag ∧ a.result.2 = after ∧ a.cursor.rest = rest := by
  unfold Gives
  rw [read_ordinary hs]
  constructor
  · rintro ⟨r, hr, rfl, rfl, rfl⟩
    obtain ⟨p, hp, hr⟩ := bind_eq_ok.1 hr
    obtain ⟨t, ht, hr⟩ := bind_eq_ok.1 hr
    obtain ⟨a, ha, hr⟩ := bind_eq_ok.1 hr
    cases hr
    exact ⟨p, a, hp, bind_eq_ok.2 ⟨t, ht, ha⟩, rfl, rfl, rfl⟩
  · rintro ⟨p, a, hp, ha, rfl, rfl, rfl⟩
    obtain ⟨t, ht, ha⟩ := bind_eq_ok.1 ha
    exact ⟨ofAhead p.2 a, bind_eq_ok.2 ⟨p, hp, bind_eq_ok.2 ⟨t, ht, bind_eq_ok.2 ⟨a, ha, rfl⟩⟩⟩,
      rfl, rfl, rfl⟩

theorem gives_raw :
    Gives (read d place left ⟨.raw, trims, cs⟩) tag after rest ↔
      ∃ p a body closer, enter cs = .ok p ∧ enclosed 2 (p.1.blockCall d) = .ok a ∧
        rawBody? a.result.1.name.toList a.cursor.rest = some (body, closer) ∧
        some (.raw a.result.1 (Text.trimIf a.result.2 closer.trimsBefore body)) = tag ∧
        closer.trimsAfter = after ∧ closer.rest = rest := by
  change Gives (raw d cs) tag after rest ↔ _
  unfold Gives raw
  constructor
  · rintro ⟨r, hr, rfl, rfl, rfl⟩
    obtain ⟨p, hp, hr⟩ := bind_eq_ok.1 hr
    obtain ⟨call, hcall, hr⟩ := bind_eq_ok.1 hr
    obtain ⟨trims, htrims, hr⟩ := bind_eq_ok.1 hr
    dsimp only at hr
    split at hr
    · cases hr
    · next body closer hbody =>
      cases hr
      exact ⟨p, _, body, closer, hp, bind_eq_ok.2 ⟨call, hcall, bind_eq_ok.2 ⟨trims, htrims, rfl⟩⟩,
        hbody, rfl, rfl, rfl⟩
  · rintro ⟨⟨c, hc⟩, a, body, closer, hp, ha, hbody, rfl, rfl, rfl⟩
    obtain ⟨⟨call, e, he⟩, hcall, ha⟩ := bind_eq_ok.1 ha
    obtain ⟨⟨trims, f, hf⟩, htrims, ha⟩ := bind_eq_ok.1 ha
    cases ha
    rw [hp, ok_bind]
    dsimp only at hcall htrims ⊢
    rw [hcall, ok_bind]
    dsimp only
    rw [htrims, ok_bind]
    dsimp only
    split
    · next hnone =>
      exact absurd (hnone.symm.trans hbody) (by simp)
    · next hsome =>
      have heq := hsome.symm.trans hbody
      cases heq
      exact ⟨_, rfl, rfl, rfl, rfl⟩

theorem gives_comment {terminator : List Char} :
    Gives (comment left terminator cs) tag after rest ↔
      Text.after? terminator cs = some rest ∧ none = tag ∧ false = after := by
  unfold Gives comment
  constructor
  · rintro ⟨r, hr, rfl, rfl, rfl⟩
    split at hr
    · cases hr
    · next hafter =>
      cases hr
      exact ⟨hafter, rfl, rfl⟩
  · rintro ⟨hafter, rfl, rfl⟩
    split
    · next hnone => exact absurd (hnone.symm.trans hafter) (by simp)
    · next hsome =>
      cases hsome.symm.trans hafter
      exact ⟨_, rfl, rfl, rfl, rfl⟩

/-- What is known of a tag that is read after an opener: it is in the text, and what stands behind
it has no part in it. -/
structure Local (d : Dialect) (place : Option Branch) (opener : Opener) (tag : Option Tag)
    (after : Bool) (rest : List Char) : Prop where
  suffix : rest <:+ opener.rest
  brace : '\x7d' ∈ opener.rest
  tilde : after = true → '~' ∈ opener.rest
  append : ∀ left more, ∃ tag', Option.Rel Tag.Moved tag tag' ∧
    Gives (read d place left ⟨opener.sigil, opener.trims, opener.rest ++ more⟩) tag' after
      (rest ++ more)

theorem local_ordinary (hs : sigil.isOrdinary = true)
    (h : Gives (read d place left ⟨sigil, trims, cs⟩) tag after rest) :
    Local d place ⟨sigil, trims, cs⟩ tag after rest := by
  obtain ⟨p, a, hp, ha, rfl, rfl, rfl⟩ := (gives_ordinary hs).1 h
  have hlocal := enter_local Tag.Moved.same (F := fun c => c.tag d place sigil)
    (fun hc => tag_carries hc d place sigil) hp ha
  have hbehind := (List.suffix_cons _ _).trans hlocal.suffix
  refine ⟨hbehind, hlocal.suffix.mem List.mem_cons_self, hlocal.tilde, fun left more => ?_⟩
  obtain ⟨q, b, hq, hb, hr, htrims, hrest⟩ := hlocal.append more
  exact ⟨_, .some hr, (gives_ordinary hs).2 ⟨q, b, hq, hb, rfl, htrims, hrest⟩⟩

theorem local_raw (h : Gives (read d place left ⟨.raw, trims, cs⟩) tag after rest) :
    Local d place ⟨.raw, trims, cs⟩ tag after rest := by
  obtain ⟨p, a, body, closer, hp, ha, hbody, rfl, rfl, rfl⟩ := gives_raw.1 h
  have hlocal := enter_local (fun _ => rfl) (F := fun c => c.blockCall d)
    (fun hc => blockCall_carries hc d) hp ha
  obtain ⟨text, hwritten, hcs⟩ := (rawBody?_append hbody []).1
  have hopening := (List.suffix_cons _ _).trans hlocal.suffix
  have hmem {x : Char} (hx : x ∈ text) : x ∈ cs :=
    hopening.mem (by rw [hcs]; exact List.mem_append_right _ (List.mem_append_left _ hx))
  refine ⟨?_, hlocal.suffix.mem List.mem_cons_self, fun h => hmem (hwritten.tilde h),
    fun left more => ?_⟩
  · rw [hcs, ← List.append_assoc] at hopening
    exact (List.suffix_append _ _).trans hopening
  · obtain ⟨q, b, hq, hb, hr, htrims, hrest⟩ := hlocal.append more
    have hbody' := (rawBody?_append hbody more).2
    rw [← hrest, hr] at hbody'
    refine ⟨_, .some (.same _), gives_raw.2 ⟨q, b, body, _, hq, hb, hbody', ?_, rfl, rfl⟩⟩
    rw [hr, htrims]

theorem gives_of_comment {terminator : List Char}
    (hmark : '\x7d' ∈ terminator) (h : Gives (comment left terminator cs) tag after rest) :
    rest <:+ cs ∧ '\x7d' ∈ cs ∧ after = false ∧ ∀ left more, ∃ tag', Option.Rel Tag.Moved tag tag' ∧
      Gives (comment left terminator (cs ++ more)) tag' after (rest ++ more) := by
  obtain ⟨hafter, rfl, rfl⟩ := gives_comment.1 h
  obtain ⟨before, hcs⟩ := (Text.after?_append hafter []).1
  refine ⟨⟨before ++ terminator, by rw [hcs, List.append_assoc]⟩, ?_, rfl, fun left more => ?_⟩
  · rw [hcs]
    exact List.mem_append_right _ (List.mem_append_left _ hmark)
  · exact ⟨none, .none, gives_comment.2 ⟨(Text.after?_append hafter more).2, rfl, rfl⟩⟩

/-- A tag that is read is read the same with more text behind it. -/
theorem local_of_gives {opener : Opener} (hsigil : opener.sigil ≠ .inclusion)
    (h : Gives (read d place left opener) tag after rest) : Local d place opener tag after rest := by
  obtain ⟨sigil, trims, cs⟩ := opener
  cases sigil with
  | inclusion => exact absurd rfl hsigil
  | raw => exact local_raw h
  | comment =>
    obtain ⟨hsuffix, hbrace, rfl, happend⟩ := gives_of_comment (by decide) h
    exact ⟨hsuffix, hbrace, nofun, happend⟩
  | longComment =>
    obtain ⟨hsuffix, hbrace, rfl, happend⟩ := gives_of_comment (by decide) h
    exact ⟨hsuffix, hbrace, nofun, happend⟩
  | _ => exact local_ordinary rfl h

end TagRead
end Stencil
