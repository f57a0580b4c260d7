import Mathlib.Data.List.TakeWhile
import Stencil.Proofs.Concatenation
import Stencil.Proofs.Faults
import Stencil.Proofs.Rounds

set_option autoImplicit false

/-!
# Positions behind text

Text without tags in front of a source changes nothing in how the source is read. What is wrong with
the source is wrong as far from its end as before, so the error is the same, at a position behind the
text.
-/
namespace Stencil

/-- The same position with text in front of its source: only the first line is longer than before. -/
def Position.behind (front : List Char) (p : Position) : Position where
  line := p.line + front.count '\n'
  column := if p.line = 1 then p.column + (front.reverse.takeWhile (· ≠ '\n')).length else p.column

theorem Position.after_append (front before : List Char) :
    after (front ++ before) = (after before).behind front := by
  have hline : (front ++ before).count '\n' + 1 =
      before.count '\n' + 1 + front.count '\n' := by
    rw [List.count_append]
    omega
  unfold after behind
  rw [hline, List.reverse_append, List.takeWhile_append, List.length_reverse]
  by_cases hnewline : '\n' ∈ before
  · have hcount : before.count '\n' + 1 ≠ 1 :=
      fun hone => List.count_eq_zero.1 (Nat.succ.inj hone) hnewline
    have hlength : (before.reverse.takeWhile (· ≠ '\n')).length ≠ before.length := by
      rw [← before.length_reverse]
      intro hlength
      have hall := List.takeWhile_eq_self_iff.1
        ((List.takeWhile_prefix _).eq_of_length hlength) '\n' (List.mem_reverse.2 hnewline)
      exact absurd hall (by decide)
    rw [if_neg hlength, if_neg hcount]
  · have hcount : before.count '\n' + 1 = 1 :=
      congrArg Nat.succ (List.count_eq_zero.2 hnewline)
    have hall : before.reverse.takeWhile (· ≠ '\n') = before.reverse :=
      List.takeWhile_eq_self_iff.2 fun c hc =>
        decide_eq_true fun he => hnewline (he ▸ List.mem_reverse.1 hc)
    rw [hall, List.length_reverse, if_pos rfl, if_pos hcount, List.length_append,
      List.length_reverse, Nat.add_right_comm before.length]

theorem Position.at_append (front source : List Char) (offset : Nat) :
    Position.at (front ++ source) (front.length + offset) =
      (Position.at source offset).behind front := by
  unfold Position.at
  rw [List.take_length_add_append, after_append]

/-- A newline counts for the line behind it, a letter of two bytes for one column. -/
example : Position.at "é\nöö\x7b\x7b%".toList 6 = (Position.at "\x7b\x7b%".toList 2).behind
    "é\nöö".toList := by decide

namespace Outline
variable {d : Dialect} {draft : Draft} {trims : Bool} {mark : Nat} {cs text inside : List Char}

def behind (xs : List Item) : Outline → Outline
  | finished items => finished (xs ++ items)
  | failed f => failed f
  | asking name left next => asking name left (next.behind xs)

theorem finish_behind (xs : List Item) (draft : Draft) (mark : Nat) :
    ofExcept ((draft.behind xs).finish mark) = (ofExcept (draft.finish mark)).behind xs := by
  obtain ⟨items, blocks⟩ := draft
  cases blocks <;> rfl

/-- What stands in front of the draft stays in front, whatever is asked for or fails behind it. -/
theorem read_of_behind (xs : List Item) (draft : Draft) (trims : Bool) (mark : Nat)
    (cs : List Char) :
    read d (draft.behind xs) trims mark cs = (read d draft trims mark cs).behind xs := by
  induction hn : cs.length using Nat.strongRecOn generalizing draft trims mark cs with
  | ind n ih =>
    subst hn
    cases hplain : Text.plain cs with
    | mk text tag =>
      cases tag with
      | none =>
        rw [read_none hplain, read_none hplain, Draft.pushText_behind]
        exact finish_behind xs _ mark
      | some inside =>
        have hlt := Text.length_lt_of_plain (congrArg Prod.snd hplain)
        have hopener := Opener.read_length inside
        have honward (pushed : Draft) (x : Except Failure (TagRead (Opener.read inside).rest.length)) :
            onward d (pushed.behind xs) mark x = (onward d pushed mark x).behind xs := by
          cases x with
          | error f => rfl
          | ok r =>
            unfold onward
            dsimp only
            rw [Draft.add_behind]
            cases pushed.add r.tag with
            | error f => rfl
            | ok draft' =>
              have hle := r.le
              exact ih r.rest.length (by omega) draft' r.trims _ r.rest rfl
        rw [read_at_tag hplain, read_at_tag hplain]
        unfold atTag
        dsimp only
        rw [Draft.pushText_behind]
        split
        · cases Asked.read d (Opener.read inside).rest with
          | error f => rfl
          | ok asked => exact congrArg (asking asked.name asked.left) (honward _ asked.tag)
        · exact honward _ _

def SameBehind (o o' : Outline) : Prop :=
  ∃ xs ys next, o = behind xs next ∧ o' = behind ys next

/-- At the beginning of a source, the text in front of the first tag is all that plain text in front
of the source adds to. -/
theorem read_plain_append {front : List Char} (hfront : IsPlain front) (cs : List Char) :
    SameBehind (read d {} false 0 cs) (read d {} false 0 (front ++ cs)) := by
  have happend := plain_append hfront cs
  have hpushed (text : List Char) : ({} : Draft).pushText text = .behind (textItems text) {} :=
    Draft.pushText_nil [] text
  cases hplain : Text.plain cs with
  | mk text tag =>
    rw [hplain] at happend
    cases tag with
    | none =>
      rw [read_none hplain, read_none happend, hpushed, hpushed, finish_behind, finish_behind]
      exact ⟨_, _, _, rfl, rfl⟩
    | some inside =>
      rw [read_pushed hplain, read_pushed happend, hpushed, hpushed, read_of_behind, read_of_behind]
      exact ⟨_, _, _, rfl, rfl⟩

/-- Where an outline ends if no partial is there. -/
def alone : Outline → Except Failure (List Item)
  | finished items => .ok items
  | failed f => .error f
  | asking name left _ => .error ⟨left, .missingPartial name⟩

theorem alone_behind (xs : List Item) (o : Outline) :
    (o.behind xs).alone = o.alone.map (xs ++ ·) := by
  cases o <;> rfl

theorem alone_ofExcept (x : Except Failure (List Item)) : (ofExcept x).alone = x := by
  cases x <;> rfl

theorem onward_within {n m : Nat} {x : Except Failure (TagRead m)}
    (h : Within n (TagRead.FaultWithin n) x) (hmark : mark ≤ n) (pushed : Draft)
    (hread : ∀ r, x = .ok r → ∀ draft mark, mark ≤ n →
      Within n (fun _ => True) (read d draft r.trims mark r.rest).alone) :
    Within n (fun _ => True) (onward d pushed mark x).alone := by
  cases x with
  | error f => exact h
  | ok r =>
    have hadd := Draft.add_within h.tag pushed
    unfold onward
    dsimp only
    cases heq : pushed.add r.tag with
    | error f =>
      rw [heq] at hadd
      exact hadd
    | ok draft' =>
      refine hread r rfl draft' _ ?_
      cases hr : r.mark with
      | none => exact hmark
      | some left => exact h.mark left hr

theorem read_within {n : Nat} (hcs : cs.length ≤ n) (hmark : mark ≤ n) (draft : Draft)
    (trims : Bool) : Within n (fun _ => True) (read d draft trims mark cs).alone := by
  induction hk : cs.length using Nat.strongRecOn generalizing draft trims mark cs with
  | ind k ih =>
    subst hk
    cases hplain : Text.plain cs with
    | mk text tag =>
      cases tag with
      | none =>
        rw [read_none hplain, alone_ofExcept]
        exact Draft.finish_within hmark _
      | some inside =>
        have hinside : inside.length + 2 ≤ cs.length :=
          (Text.tag_suffix_of_plain hplain).length_le
        have hopener := Opener.read_length inside
        have honward (pushed : Draft) {x : Except Failure (TagRead (Opener.read inside).rest.length)}
            (hx : Within n (TagRead.FaultWithin n) x) :
            Within n (fun _ => True) (onward d pushed mark x).alone := by
          refine onward_within hx hmark pushed fun r _ draft' mark' hmark' => ?_
          have hle := r.le
          exact ih r.rest.length (by omega) (by omega) hmark' draft' r.trims rfl
        rw [read_at_tag hplain]
        unfold atTag
        dsimp only
        split
        · have hasked : Within n (fun asked => asked.left ≤ n ∧
              Within n (TagRead.FaultWithin n) asked.tag) (Asked.read d (Opener.read inside).rest) :=
            Asked.read_within (by omega)
          cases heq : Asked.read d (Opener.read inside).rest with
          | error f =>
            rw [heq] at hasked
            exact hasked
          | ok asked =>
            rw [heq] at hasked
            exact hasked.1
        · exact honward _ (TagRead.read_within (by omega) (by omega))

end Outline

theorem Failure.error_append (front source : String) {f : Failure} (hf : f.left ≤ source.length) :
    ∃ position kind, f.error source = .syntaxError ⟨position, kind⟩ ∧
      f.error (front ++ source) = .syntaxError ⟨position.behind front.toList, kind⟩ := by
  refine ⟨_, _, rfl, ?_⟩
  have hoffset : (front ++ source).length - f.left =
      front.toList.length + (source.length - f.left) := by
    rw [String.length_append, String.length_toList]
    omega
  unfold error
  rw [hoffset, String.toList_append, Position.at_append]

namespace Template

theorem ofSource_eq (source : String) :
    ofSource source =
      ((Outline.ofSource { helpers := Builtin.registry } source).alone.map
        fun items => (⟨source, items, ⟨[]⟩⟩ : Template)).mapError (Failure.error source) := by
  unfold ofSource
  dsimp only
  cases Outline.ofSource _ source <;> rfl

/-- Text without braces and backslashes in front of a source decides nothing: either both compile, or
both have the same thing wrong with them, where the one has it at a position behind that text. -/
theorem ofSource_plain_append {front : String} (hfront : IsPlain front.toList) (source : String) :
    ((∃ t, ofSource (front ++ source) = .ok t) ↔ ∃ t, ofSource source = .ok t) ∧
      ∀ e, ofSource source = .error e → ∃ position kind, e = .syntaxError ⟨position, kind⟩ ∧
        ofSource (front ++ source) =
          .error (.syntaxError ⟨position.behind front.toList, kind⟩) := by
  have hsame := Outline.read_plain_append (d := { helpers := Builtin.registry }) hfront source.toList
  obtain ⟨xs, ys, next, hsource, happend⟩ := hsame
  rw [← String.toList_append] at happend
  have hwithin : Within source.length (fun _ => True)
      (Outline.read { helpers := Builtin.registry } {} false 0 source.toList).alone :=
    Outline.read_within (Nat.le_of_eq source.length_toList) (Nat.zero_le _) {} false
  rw [ofSource_eq, ofSource_eq]
  unfold Outline.ofSource
  rw [hsource, Outline.alone_behind] at hwithin ⊢
  rw [happend, Outline.alone_behind]
  cases hnext : next.alone with
  | ok items =>
    exact ⟨⟨fun _ => ⟨_, rfl⟩, fun _ => ⟨_, rfl⟩⟩, fun e he => nomatch he⟩
  | error f =>
    rw [hnext] at hwithin
    refine ⟨iff_of_false nofun nofun, ?_⟩
    rintro _ ⟨⟩
    obtain ⟨position, kind, herror, herror'⟩ := Failure.error_append front source hwithin
    exact ⟨position, kind, herror, congrArg Except.error herror'⟩

/-- A tag that does not end, at the beginning of a source and in its second line. -/
theorem ofSource_plain_append_letter :
    IsPlain "Grüße,\nAnn ".toList ∧
      ofSource "\x7b\x7bname" = .error (.syntaxError ⟨⟨1, 7⟩, .unexpectedEnd⟩) ∧
      ofSource ("Grüße,\nAnn " ++ "\x7b\x7bname") =
        .error (.syntaxError ⟨⟨2, 11⟩, .unexpectedEnd⟩) := by
  have hfront : IsPlain "Grüße,\nAnn ".toList := by simp [IsPlain]
  have hmoved : Position.behind "Grüße,\nAnn ".toList ⟨1, 7⟩ = ⟨2, 11⟩ := by decide
  have herror : ofSource "\x7b\x7bname" = .error (.syntaxError ⟨⟨1, 7⟩, .unexpectedEnd⟩) := by cbv
  obtain ⟨position, kind, he, hbehind⟩ := (ofSource_plain_append hfront "\x7b\x7bname").2 _ herror
  cases he
  rw [hmoved] at hbehind
  exact ⟨hfront, herror, hbehind⟩

end Template
end Stencil
