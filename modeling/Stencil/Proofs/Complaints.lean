import Stencil.Outline
import Stencil.Proofs.Cursors

set_option autoImplicit false

/-!
# What tags complain about

A tag that cannot be read says what is wrong with it. That a block is still open is said of a source,
and never while one of its tags is read.
-/
namespace Stencil

/-- A reading does not fail with a block that is still open. -/
def Unblocked {α : Type} (x : Except Failure α) : Prop :=
  ∀ left name, x ≠ .error ⟨left, .blockStillOpen name⟩

namespace Unblocked
variable {α β : Type} {x : Except Failure α}

theorem ok (a : α) : Unblocked (.ok a : Except Failure α) := by
  rintro left name ⟨⟩

theorem bind {f : α → Except Failure β} (h : Unblocked x) (hf : ∀ a, Unblocked (f a)) :
    Unblocked (x >>= f) := by
  cases x with
  | error e =>
    rintro left name ⟨⟩
    exact h left name rfl
  | ok a => exact hf a

theorem map {f : α → β} (h : Unblocked x) : Unblocked (f <$> x) := by
  cases x with
  | error e =>
    rintro left name ⟨⟩
    exact h left name rfl
  | ok a => exact .ok (f a)

end Unblocked

namespace Cursor
variable {c : Cursor}

theorem start_unblocked (cs : List Char) : Unblocked (start cs) := by
  unfold start
  split
  · exact .ok _
  · next hread =>
    unfold Token.read at hread
    split at hread
    · cases hread
    · split at hread
      · cases hread
        rintro left name ⟨⟩
      · split at hread <;> cases hread
        rintro left name ⟨⟩

theorem eat_unblocked (kind : TokenKind) (c : Cursor) : Unblocked (c.eat kind) := by
  unfold eat
  split
  · exact (start_unblocked c.rest).map
  · exact .ok none

theorem skip_unblocked (kind : TokenKind) (c : Cursor) : Unblocked (c.skip kind) :=
  (eat_unblocked kind c).bind fun past => by cases past <;> exact .ok _

theorem expect_unblocked (kind : TokenKind) (c : Cursor) : Unblocked (c.expect kind) := by
  refine (eat_unblocked kind c).bind fun past => ?_
  cases past with
  | none => rintro left name ⟨⟩
  | some p => exact .ok p

theorem steps_unblocked (separator : String) (c : Cursor) : Unblocked (c.steps separator) := by
  induction hn : c.rest.length using Nat.strongRecOn generalizing c separator with
  | ind n ih =>
    subst hn
    rw [steps]
    split
    · refine (start_unblocked c.rest).bind ?_
      rintro ⟨d, hd⟩
      dsimp only
      split
      · refine (start_unblocked d.rest).bind ?_
        rintro ⟨e, he⟩
        exact (ih e.rest.length (Nat.lt_trans he hd) _ e rfl).bind fun _ => .ok _
      · exact .ok _
    · rintro left name ⟨⟩

theorem names?_unblocked (c : Cursor) : Unblocked c.names? := by
  unfold names?
  split
  · exact (steps_unblocked "" c).bind fun _ => .ok _
  · exact .ok _

theorem names_unblocked (c : Cursor) : Unblocked c.names := by
  refine (names?_unblocked c).bind ?_
  rintro ⟨path, d, hd⟩
  cases path with
  | none => rintro left name ⟨⟩
  | some path => exact .ok _

theorem climb_unblocked (up : Nat) (here : Bool) (c : Cursor) : Unblocked (c.climb up here) := by
  induction hn : c.rest.length using Nat.strongRecOn generalizing c up here with
  | ind n ih =>
    subst hn
    rw [climb]
    refine (eat_unblocked .dot c).bind fun first => ?_
    cases first with
    | none => exact .ok _
    | some d =>
      obtain ⟨d, hd⟩ := d
      refine (eat_unblocked .dot d).bind fun second => ?_
      cases second with
      | some e =>
        obtain ⟨e, he⟩ := e
        refine (eat_unblocked .slash e).bind fun slash => ?_
        cases slash with
        | none => exact .ok _
        | some f =>
          obtain ⟨f, hf⟩ := f
          have hlt := Nat.lt_trans hf (Nat.lt_trans he hd)
          exact (ih f.rest.length hlt _ _ f rfl).bind fun _ => .ok _
      | none =>
        refine (eat_unblocked .slash d).bind fun slash => ?_
        cases slash with
        | none => exact .ok _
        | some e =>
          obtain ⟨e, he⟩ := e
          exact (ih e.rest.length (Nat.lt_trans he hd) _ _ e rfl).bind fun _ => .ok _

theorem referenceNames_unblocked (data : Bool) (up : Nat) (required : Bool) (c : Cursor) :
    Unblocked (c.referenceNames data up required) := by
  refine (names?_unblocked c).bind ?_
  rintro ⟨path, d, hd⟩
  cases path with
  | some path => exact .ok _
  | none => cases required <;> rintro left name ⟨⟩

theorem reference?_unblocked (c : Cursor) : Unblocked c.reference? := by
  refine (skip_unblocked .atSign c).bind ?_
  rintro ⟨data, d, hd⟩
  refine (eat_unblocked .thisWord d).bind fun word => ?_
  cases word with
  | some e =>
    refine (skip_unblocked .dot e.1).bind ?_
    rintro ⟨dotted, f, hf⟩
    cases dotted with
    | true => exact (referenceNames_unblocked data 0 true f).bind fun _ => .ok _
    | false => exact .ok _
  | none =>
    refine (climb_unblocked 0 false d).bind ?_
    rintro ⟨⟨up, required⟩, e, he⟩
    cases required with
    | some required => exact (referenceNames_unblocked data up required e).bind fun _ => .ok _
    | none => exact .ok _

variable {dialect : Dialect} {place : Option Branch}

theorem head_unblocked (fallback : Option Helper) (c : Cursor) :
    Unblocked (c.head dialect fallback) := by
  refine (names?_unblocked c).bind ?_
  rintro ⟨path, d, hd⟩
  cases path with
  | some path =>
    dsimp only
    split <;> exact .ok _
  | none =>
    refine (reference?_unblocked d).bind ?_
    rintro ⟨r, e, he⟩
    cases r <;> rintro left name ⟨⟩

theorem check_unblocked {ε : Type} (call : Call ε) (c : Cursor) :
    Unblocked (call.check dialect c) := by
  unfold Call.check
  split
  · exact .ok _
  · split <;> rintro left name ⟨⟩

structure UnblockedBelow (dialect : Dialect) (n : Nat) : Prop where
  call : ∀ (c : Cursor) (fallback : Option Helper), 3 * c.rest.length + 1 < n →
    Unblocked (c.call dialect fallback)
  expression : ∀ c : Cursor, 3 * c.rest.length + 2 < n → Unblocked (c.expression dialect)
  operand : ∀ c : Cursor, 3 * c.rest.length < n → Unblocked (c.operand? dialect)
  argument : ∀ c : Cursor, 3 * c.rest.length + 1 < n → Unblocked (c.argument? dialect)
  arguments : ∀ c : Cursor, 3 * c.rest.length < n → Unblocked (c.arguments dialect)

section
variable {n : Nat} (ih : UnblockedBelow dialect n)
include ih

theorem call_unblocked (hn : 3 * c.rest.length + 1 < n + 1) (fallback : Option Helper) :
    Unblocked (c.call dialect fallback) := by
  rw [call]
  refine (head_unblocked fallback c).bind ?_
  rintro ⟨head, d, hd⟩
  exact (ih.arguments d (by omega)).bind fun _ => .ok _

theorem expression_unblocked (hn : 3 * c.rest.length + 2 < n + 1) :
    Unblocked (c.expression dialect) := by
  rw [expression]
  refine (ih.call c _ (by omega)).bind ?_
  rintro ⟨call, d, hd⟩
  dsimp only
  split
  · refine (reference?_unblocked c).bind ?_
    rintro ⟨r, e, he⟩
    cases r <;> rintro left name ⟨⟩
  · exact (check_unblocked call d).bind fun _ => .ok _

theorem operand?_unblocked (hn : 3 * c.rest.length < n + 1) : Unblocked (c.operand? dialect) := by
  rw [operand?]
  refine (reference?_unblocked c).bind ?_
  rintro ⟨r, d, hd⟩
  cases r with
  | some r => exact .ok _
  | none =>
    dsimp only
    split
    · exact (start_unblocked d.rest).bind fun _ => .ok _
    · refine (eat_unblocked .leftParen d).bind fun past => ?_
      cases past with
      | none => exact .ok _
      | some e =>
        obtain ⟨e, he⟩ := e
        refine (skip_unblocked .space e).bind ?_
        rintro ⟨_, f, hf⟩
        refine (ih.expression f (by omega)).bind ?_
        rintro ⟨inner, g, hg⟩
        exact (expect_unblocked .rightParen g).bind fun _ => .ok _

theorem argument?_unblocked (hn : 3 * c.rest.length + 1 < n + 1) :
    Unblocked (c.argument? dialect) := by
  rw [argument?]
  refine (names?_unblocked c).bind ?_
  rintro ⟨path, d, hd⟩
  dsimp only
  split
  · refine (eat_unblocked .equals d).bind fun past => ?_
    cases past with
    | none => exact .ok _
    | some e =>
      obtain ⟨e, he⟩ := e
      refine (ih.operand e (by omega)).bind ?_
      rintro ⟨value, f, hf⟩
      cases value <;> rintro left name ⟨⟩
  · exact .ok _
  · exact (ih.operand d (by omega)).bind fun _ => .ok _

theorem arguments_unblocked (hn : 3 * c.rest.length < n + 1) :
    Unblocked (c.arguments dialect) := by
  rw [arguments]
  refine (eat_unblocked .space c).bind fun past => ?_
  cases past with
  | none => exact .ok _
  | some d =>
    obtain ⟨d, hd⟩ := d
    refine (ih.argument d (by omega)).bind ?_
    rintro ⟨arg, e, he⟩
    cases arg with
    | none => exact .ok _
    | some arg => exact (ih.arguments e (by omega)).bind fun _ => .ok _

end

theorem unblockedBelow (dialect : Dialect) (n : Nat) : UnblockedBelow dialect n := by
  induction n with
  | zero => constructor <;> (intros; omega)
  | succ n ih =>
    exact {
      call := fun _ fallback hn => call_unblocked ih hn fallback
      expression := fun _ hn => expression_unblocked ih hn
      operand := fun _ hn => operand?_unblocked ih hn
      argument := fun _ hn => argument?_unblocked ih hn
      arguments := fun _ hn => arguments_unblocked ih hn }

theorem braces_unblocked (count : Nat) (c : Cursor) : Unblocked (c.braces count) := by
  induction count generalizing c with
  | zero => exact .ok _
  | succ count ih =>
    exact (expect_unblocked .brace c).bind fun past => (ih past.1).bind fun _ => .ok _

theorem closer_unblocked (extra : Nat) (c : Cursor) : Unblocked (c.closer extra) := by
  refine (skip_unblocked .space c).bind fun space => ?_
  refine (skip_unblocked .tilde space.cursor).bind fun tilde => ?_
  refine (braces_unblocked (extra + 1) tilde.cursor).bind fun braces => ?_
  split
  · exact .ok _
  · rintro left name ⟨⟩

theorem blockCall_unblocked (c : Cursor) : Unblocked (c.blockCall dialect) :=
  ((unblockedBelow dialect _).call c _ (Nat.lt_succ_self _)).bind fun call =>
    (check_unblocked call.result call.cursor).bind fun _ => .ok _

theorem valueTag_unblocked (escape : Bool) (c : Cursor) : Unblocked (c.valueTag dialect escape) :=
  ((unblockedBelow dialect _).expression c (Nat.lt_succ_self _)).map

theorem otherwiseTag_unblocked (c : Cursor) : Unblocked (c.otherwiseTag place) := by
  unfold otherwiseTag
  split <;> rintro left name ⟨⟩

theorem otherwiseOpeningTag_unblocked (c : Cursor) :
    Unblocked (c.otherwiseOpeningTag dialect place) := by
  unfold otherwiseOpeningTag
  split
  · rintro left name ⟨⟩
  · exact (blockCall_unblocked c).bind fun _ => .ok _

theorem escapedTag_unblocked (c : Cursor) : Unblocked (c.escapedTag dialect place) := by
  refine (eat_unblocked .elseWord c).bind fun word => ?_
  cases word with
  | none => exact valueTag_unblocked true c
  | some past =>
    dsimp only
    split
    · exact (otherwiseTag_unblocked _).bind fun _ => .ok _
    · refine (skip_unblocked .space _).bind fun space => ?_
      split
      · exact (otherwiseOpeningTag_unblocked _).bind fun _ => .ok _
      · exact (otherwiseTag_unblocked _).bind fun _ => .ok _

theorem negatedTag_unblocked (c : Cursor) : Unblocked (c.negatedTag dialect place) := by
  unfold negatedTag
  split
  · exact otherwiseTag_unblocked c
  · refine (reference?_unblocked c).bind ?_
    rintro ⟨r, d, hd⟩
    cases r <;> rintro left name ⟨⟩

theorem tag_unblocked (sigil : Sigil) (c : Cursor) : Unblocked (c.tag dialect place sigil) := by
  cases sigil with
  | unescaped | triple => exact valueTag_unblocked false c
  | opening => exact (blockCall_unblocked c).map
  | negated => exact negatedTag_unblocked c
  | closing => exact (names?_unblocked c).bind fun _ => .ok _
  | _ => exact escapedTag_unblocked c

theorem enter_unblocked (cs : List Char) : Unblocked (enter cs) :=
  (start_unblocked cs).bind fun p => (skip_unblocked .space p.1).bind fun _ => .ok _

end Cursor

section
open Cursor

theorem TagRead.read_unblocked (d : Dialect) (place : Option Branch) (left : Nat) (opener : Opener) :
    Unblocked (TagRead.read d place left opener) := by
  have hcomment (terminator : List Char) : Unblocked (comment left terminator opener.rest) := by
    unfold comment
    split <;> rintro left name ⟨⟩
  unfold TagRead.read
  split
  · refine (enter_unblocked opener.rest).bind ?_
    rintro ⟨c, hc⟩
    refine (blockCall_unblocked c).bind ?_
    rintro ⟨call, e, he⟩
    refine (closer_unblocked 2 e).bind ?_
    rintro ⟨trims, f, hf⟩
    dsimp only
    split <;> rintro left name ⟨⟩
  · exact hcomment _
  · exact hcomment _
  · refine (enter_unblocked opener.rest).bind ?_
    rintro ⟨c, hc⟩
    refine (tag_unblocked _ c).bind fun tag => ?_
    exact ((closer_unblocked _ tag.cursor).bind fun _ => .ok _).bind fun _ => .ok _

theorem Asked.read_unblocked (d : Dialect) (cs : List Char) :
    Unblocked (Asked.read d cs) ∧ ∀ asked, Asked.read d cs = .ok asked → Unblocked asked.tag := by
  constructor
  · refine (enter_unblocked cs).bind ?_
    rintro ⟨c, hc⟩
    exact (names_unblocked c).map.bind fun _ => .ok _
  · intro asked h
    obtain ⟨⟨c, hc⟩, -, h⟩ := bind_eq_ok.1 h
    obtain ⟨⟨name, e, he⟩, -, h⟩ := bind_eq_ok.1 h
    cases h
    refine Unblocked.map (Unblocked.bind ?_ fun tag =>
      (closer_unblocked 0 tag.cursor).bind fun _ => .ok _)
    exact ((unblockedBelow d _).arguments e (Nat.lt_succ_self _)).bind fun _ => .ok _

end
end Stencil
