import Mathlib.Data.Prod.Lex
import Stencil.Proofs.Positions
import Stencil.Proofs.Tiling

set_option autoImplicit false

/-!
# Offsets and positions

Offsets into a source count bytes, positions count lines and characters. A position still says
exactly where its offset is: past the newlines in front of its line, and then along that line. So
offsets further behind have greater positions (`Position.determines_offset`).
-/
namespace Stencil
namespace Position

variable {source : String}

def front (p : source.Pos) : List Char := (source.sliceTo p).copy.toList

def ofPos (p : source.Pos) : Position := .at source.toList (front p).length

/-- The position of an offset. An offset past the end is taken for the end, and one that lies inside
a character has no position. -/
def ofOffset? (source : String) (offset : String.Pos.Raw) : Option Position :=
  (source.pos? (offset.min source.rawEndPos)).map ofPos

/-- Goes from an offset past so many newlines in the text behind it, and then past so many
characters that are none. It leads nowhere if there are too few of them. -/
def walk : (newlines characters : Nat) → List Char → String.Pos.Raw → Option String.Pos.Raw
  | 0, 0, _, offset => some offset
  | 0, m + 1, c :: cs, offset => if c = '\n' then none else walk 0 m cs (offset + c)
  | n + 1, m, c :: cs, offset => walk (if c = '\n' then n else n + 1) m cs (offset + c)
  | _, _, [], _ => none

def offset? (source : String) (p : Position) : Option String.Pos.Raw :=
  walk (p.line - 1) (p.column - 1) source.toList 0

def key (p : Position) : ℕ ×ₗ ℕ := toLex (p.line, p.column)

theorem behind_newline (p : Position) : p.behind ['\n'] = ⟨p.line + 1, p.column⟩ :=
  congrArg (Position.mk (p.line + 1)) (ite_self p.column)

theorem behind_character {c : Char} (hc : c ≠ '\n') (p : Position) :
    p.behind [c] = ⟨p.line, if p.line = 1 then p.column + 1 else p.column⟩ := by
  have htake : [c].reverse.takeWhile (· ≠ '\n') = [c] :=
    List.takeWhile_cons_of_pos (decide_eq_true hc)
  unfold behind
  rw [List.count_cons_of_ne hc, htake]
  rfl

/-- With one more character in front, the walk to a position begins by passing that character. -/
theorem walk_behind (n m : Nat) (c : Char) (cs : List Char) (offset : String.Pos.Raw) :
    walk ((Position.behind [c] ⟨n + 1, m + 1⟩).line - 1)
        ((Position.behind [c] ⟨n + 1, m + 1⟩).column - 1) (c :: cs) offset =
      walk n m cs (offset + c) := by
  by_cases hc : c = '\n'
  · subst hc
    rw [behind_newline]
    cases n <;> cases m <;> rfl
  · rw [behind_character hc]
    cases n with
    | zero => exact if_neg hc
    | succ n => exact congrArg (walk · m cs (offset + c)) (if_neg hc)

theorem offset_cons (offset : String.Pos.Raw) (c : Char) (cs : List Char) :
    offset + String.ofList (c :: cs) = offset + c + String.ofList cs := by
  refine String.Pos.Raw.ext ?_
  change offset.byteIdx + (String.ofList (c :: cs)).utf8ByteSize =
    offset.byteIdx + c.utf8Size + (String.ofList cs).utf8ByteSize
  rw [String.ofList_cons, String.utf8ByteSize_append, String.utf8ByteSize_singleton, Nat.add_assoc]

/-- From wherever one starts, the position behind a text leads to the end of that text. -/
theorem walk_after (before rest : List Char) (offset : String.Pos.Raw) :
    walk ((after before).line - 1) ((after before).column - 1) (before ++ rest) offset =
      some (offset + String.ofList before) := by
  induction before generalizing offset with
  | nil => exact walk.eq_1 rest offset
  | cons c cs ih =>
    have hcons : after (c :: cs) = (after cs).behind [c] := after_append [c] cs
    rw [hcons, offset_cons]
    exact (walk_behind _ _ c (cs ++ rest) offset).trans (ih (offset + c))

def next (p : Position) (c : Char) : Position :=
  if c = '\n' then ⟨p.line + 1, 1⟩ else ⟨p.line, p.column + 1⟩

theorem key_lt_next (p : Position) (c : Char) : p.key < (p.next c).key := by
  unfold next
  split_ifs
  · exact Prod.Lex.toLex_lt_toLex.2 (.inl (Nat.lt_succ_self p.line))
  · exact Prod.Lex.toLex_lt_toLex.2 (.inr ⟨rfl, Nat.lt_succ_self p.column⟩)

theorem after_concat (before : List Char) (c : Char) :
    after (before ++ [c]) = (after before).next c := by
  unfold after next
  rw [List.count_append, List.reverse_concat, List.takeWhile_cons]
  by_cases hc : c = '\n'
  · subst hc
    rfl
  · rw [List.count_cons_of_ne hc, if_pos (decide_eq_true hc), if_neg hc]
    rfl

theorem key_after_le (before more : List Char) :
    (after before).key ≤ (after (before ++ more)).key := by
  induction more generalizing before with
  | nil => rw [List.append_nil]
  | cons c more ih =>
    calc (after before).key
      _ ≤ ((after before).next c).key := le_of_lt (key_lt_next _ c)
      _ = (after (before ++ [c])).key := by rw [after_concat]
      _ ≤ (after (before ++ [c] ++ more)).key := ih (before ++ [c])
      _ = (after (before ++ c :: more)).key := by rw [List.append_assoc, List.singleton_append]

theorem key_after_lt (before : List Char) {more : List Char} (h : more ≠ []) :
    (after before).key < (after (before ++ more)).key := by
  obtain ⟨c, cs, rfl⟩ := List.exists_cons_of_ne_nil h
  have hle := key_after_le (before ++ [c]) cs
  rw [after_concat, List.append_assoc] at hle
  exact (key_lt_next _ c).trans_le hle

theorem front_append_behind (p : source.Pos) : front p ++ Token.behind p = source.toList := by
  unfold front Token.behind
  rw [← String.toList_append, ← p.splits.eq_append]

theorem ofPos_eq (p : source.Pos) : ofPos p = after (front p) := by
  unfold ofPos Position.at
  rw [← front_append_behind p, List.take_left]

theorem offset?_ofPos (p : source.Pos) : (ofPos p).offset? source = some p.offset := by
  have hoffset : (0 : String.Pos.Raw) + String.ofList (front p) = p.offset := by
    rw [front, String.ofList_toList, p.splits.offset_eq_rawEndPos]
    exact String.Pos.Raw.ext (Nat.zero_add _)
  unfold offset?
  rw [← front_append_behind p, ofPos_eq, walk_after, hoffset]

theorem key_ofPos_lt {p q : source.Pos} (h : p < q) : (ofPos p).key < (ofPos q).key := by
  obtain ⟨text, htext, hfront, -⟩ := (p.splits.lt_iff_exists_eq_append q.splits).1 h
  have hmore : front q = front p ++ text.toList := by
    rw [front, hfront, String.toList_append]
    rfl
  rw [ofPos_eq, ofPos_eq, hmore]
  exact key_after_lt _ (mt String.toList_eq_nil_iff.1 htext)

theorem key_ofPos_lt_iff (p q : source.Pos) : (ofPos p).key < (ofPos q).key ↔ p < q := by
  refine ⟨fun h => ?_, key_ofPos_lt⟩
  rcases Std.lt_trichotomy p q with hlt | rfl | hgt
  · exact hlt
  · exact absurd h (lt_irrefl _)
  · exact absurd h (key_ofPos_lt hgt).not_gt

theorem pos?_offset (p : source.Pos) : source.pos? p.offset = some p := by
  have hvalid : p.offset.isValidForSlice source.toSlice = true :=
    String.Pos.Raw.isValidForSlice_eq_true_iff.2 p.toSlice.isValidForSlice
  unfold String.pos? String.Slice.pos?
  rw [dif_pos hvalid]
  rfl

theorem ofOffset?_offset (p : source.Pos) : ofOffset? source p.offset = some (ofPos p) := by
  have hmin : p.offset.min source.rawEndPos = p.offset :=
    String.Pos.Raw.ext (Nat.min_eq_left p.isValid.le_rawEndPos)
  rw [ofOffset?, hmin, pos?_offset]
  rfl

theorem ofOffset?_past {offset : String.Pos.Raw} (h : source.rawEndPos ≤ offset) :
    ofOffset? source offset = some (ofPos source.endPos) := by
  have hmin : offset.min source.rawEndPos = source.endPos.offset :=
    String.Pos.Raw.ext (Nat.min_eq_right h)
  rw [ofOffset?, hmin, pos?_offset]
  rfl

theorem at_past {n : Nat} (h : source.length ≤ n) :
    Position.at source.toList n = ofPos source.endPos := by
  have hfront : front source.endPos = source.toList :=
    congrArg String.toList (String.splits_endPos source).copy_sliceTo_eq
  rw [ofPos_eq, hfront, Position.at, List.take_of_length_le (source.length_toList ▸ h)]

/-- A newline belongs to the line that it ends, and a character of two bytes takes up one column. -/
example : (List.range 7).map (fun n => ofOffset? "é\nö" ⟨n⟩) =
    [some ⟨1, 1⟩, none, some ⟨1, 2⟩, some ⟨2, 1⟩, none, some ⟨2, 2⟩, some ⟨2, 2⟩] := by decide

/-- A failure at a place is reported with the position of that place. -/
theorem error_ofPos (p : source.Pos) (kind : SyntaxErrorKind) :
    Failure.error source ⟨(Token.behind p).length, kind⟩ = .syntaxError ⟨ofPos p, kind⟩ := by
  have hlength : source.length - (Token.behind p).length = (front p).length := by
    rw [← String.length_toList, ← front_append_behind p, List.length_append, Nat.add_sub_cancel]
  unfold Failure.error ofPos
  rw [hlength]

/-- The position of an offset, which an error there is reported with, leads back to that offset and
to no other. The further an offset is behind, the greater is its position, and past the end it is
that of the end. -/
theorem determines_offset (source : String) :
    (∀ p : source.Pos, ofOffset? source p.offset = some (ofPos p) ∧
      (∀ kind, Failure.error source ⟨(Token.behind p).length, kind⟩ =
        .syntaxError ⟨ofPos p, kind⟩) ∧
      (ofPos p).offset? source = some p.offset) ∧
    (∀ p q : source.Pos, (ofPos p).key < (ofPos q).key ↔ p < q) ∧
    (∀ offset, source.rawEndPos ≤ offset →
      ofOffset? source offset = some (ofPos source.endPos)) ∧
    ∀ n, source.length ≤ n → Position.at source.toList n = ofPos source.endPos := by
  refine ⟨fun p => ?_, key_ofPos_lt_iff, fun _ => ofOffset?_past, fun _ => at_past⟩
  exact ⟨ofOffset?_offset p, error_ofPos p, offset?_ofPos p⟩

/-- In the second line, behind characters of two bytes, and past the end. -/
theorem determines_offset_secondLine :
    let source := "é\nöö"
    ofOffset? source ⟨5⟩ = some ⟨2, 2⟩ ∧ (⟨2, 2⟩ : Position).offset? source = some ⟨5⟩ ∧
      source.rawEndPos ≤ ⟨9⟩ ∧ ofOffset? source ⟨9⟩ = some ⟨2, 3⟩ ∧
      source.length ≤ 6 ∧ Position.at source.toList 6 = ⟨2, 3⟩ := by
  intro source
  let p : source.Pos := source.pos ⟨5⟩ (by decide)
  have hp : ofPos p = ⟨2, 2⟩ := by decide
  have hend : ofPos source.endPos = ⟨2, 3⟩ := by decide
  have hbytes : source.rawEndPos ≤ ⟨9⟩ := by decide
  have hlength : source.length ≤ 6 := by decide
  obtain ⟨hplaces, -, hpast, hpast'⟩ := determines_offset source
  obtain ⟨hoffset, -, hback⟩ := hplaces p
  rw [hp] at hoffset hback
  rw [hend] at hpast hpast'
  exact ⟨hoffset, hback, hbytes, hpast ⟨9⟩ hbytes, hlength, hpast' 6 hlength⟩

end Position
end Stencil
