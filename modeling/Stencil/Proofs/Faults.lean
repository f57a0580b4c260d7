import Stencil.Outline
import Stencil.Proofs.Cursors

set_option autoImplicit false

/-!
# Where reading fails

What is wrong with a tag is wrong at a place in it: no more characters are left there than where its
reading began.
-/
namespace Stencil

/-- A reading fails where at most `n` characters are left, or comes to something with the property. -/
def Within {α : Type} (n : Nat) (p : α → Prop) : Except Failure α → Prop
  | .error f => f.left ≤ n
  | .ok a => p a

namespace Within
variable {α β : Type} {n : Nat} {p : α → Prop} {q : β → Prop}

theorem ok {a : α} (h : p a) : Within n p (.ok a) := h

theorem bind {x : Except Failure α} {f : α → Except Failure β} (h : Within n p x)
    (hf : ∀ a, p a → Within n q (f a)) : Within n q (x >>= f) := by
  cases x with
  | error e => exact h
  | ok a => exact hf a h

theorem map {x : Except Failure α} {f : α → β} (h : Within n p x) (hf : ∀ a, p a → q (f a)) :
    Within n q (f <$> x) := by
  cases x with
  | error e => exact h
  | ok a => exact hf a h

end Within

namespace Cursor
variable {c : Cursor} {n : Nat}

abbrev EndsWithin {α : Type} (n : Nat) (x : Except Failure (c.Ahead α)) : Prop :=
  Within n (fun a => a.cursor.left ≤ n) x

theorem start_within {cs : List Char} (h : cs.length ≤ n) :
    Within n (fun p => p.1.left ≤ n) (start cs) := by
  cases hstart : start cs with
  | ok p =>
    change p.1.left ≤ n
    rwa [(at_of_start hstart).left]
  | error f =>
    unfold start at hstart
    split at hstart
    · cases hstart
    · next hread =>
      cases hstart
      unfold Token.read at hread
      split at hread
      · cases hread
      · split at hread
        · cases hread
          exact Nat.zero_le n
        · split at hread <;> cases hread
          exact h

theorem next_within (h : c.left ≤ n) : Within n (fun p => p.1.left ≤ n) c.next := by
  refine start_within (Nat.le_trans ?_ h)
  rw [left, chars, List.length_append]
  exact Nat.le_add_left _ _

theorem eat_within (h : c.left ≤ n) (kind : TokenKind) :
    Within n (fun past => ∀ p, past = some p → p.1.left ≤ n) (c.eat kind) := by
  unfold eat
  split
  · exact (next_within h).map fun p hp q hq => by cases hq; exact hp
  · exact .ok nofun

theorem skip_within (h : c.left ≤ n) (kind : TokenKind) : EndsWithin n (c.skip kind) := by
  refine (eat_within h kind).bind fun past hpast => ?_
  cases past with
  | none => exact h
  | some p => exact hpast p rfl

theorem expect_within (h : c.left ≤ n) (kind : TokenKind) :
    Within n (fun p => p.1.left ≤ n) (c.expect kind) := by
  refine (eat_within h kind).bind fun past hpast => ?_
  cases past with
  | none => exact h
  | some p => exact hpast p rfl

theorem steps_within (h : c.left ≤ n) (separator : String) : EndsWithin n (c.steps separator) := by
  induction hm : c.rest.length using Nat.strongRecOn generalizing c separator with
  | ind m ih =>
    subst hm
    rw [steps]
    split
    · refine (next_within h).bind fun d hd => ?_
      obtain ⟨d, hlt⟩ := d
      dsimp only
      split
      · refine (next_within hd).bind fun e he => ?_
        obtain ⟨e, hlt'⟩ := e
        exact (ih e.rest.length (Nat.lt_trans hlt' hlt) he _ rfl).bind fun later hlater => hlater
      · exact hd
    · exact h

theorem names?_within (h : c.left ≤ n) : EndsWithin n c.names? := by
  unfold names?
  split
  · exact (steps_within h "").bind fun a ha => ha
  · exact h

theorem names_within (h : c.left ≤ n) : EndsWithin n c.names := by
  refine (names?_within h).bind fun a ha => ?_
  obtain ⟨path, d, hd⟩ := a
  cases path with
  | none => exact h
  | some path => exact ha

theorem climb_within (h : c.left ≤ n) (up : Nat) (here : Bool) : EndsWithin n (c.climb up here) := by
  induction hm : c.rest.length using Nat.strongRecOn generalizing c up here with
  | ind m ih =>
    subst hm
    rw [climb]
    refine (eat_within h .dot).bind fun first hfirst => ?_
    cases first with
    | none => exact h
    | some d =>
      obtain ⟨d, hlt⟩ := d
      have hd := hfirst _ rfl
      refine (eat_within hd .dot).bind fun second hsecond => ?_
      cases second with
      | some e =>
        obtain ⟨e, hlt'⟩ := e
        have he := hsecond _ rfl
        refine (eat_within he .slash).bind fun slash hslash => ?_
        cases slash with
        | none => exact he
        | some f =>
          obtain ⟨f, hlt''⟩ := f
          refine (ih f.rest.length ?_ (hslash _ rfl) _ _ rfl).bind fun a ha => ha
          exact Nat.lt_trans hlt'' (Nat.lt_trans hlt' hlt)
      | none =>
        refine (eat_within hd .slash).bind fun slash hslash => ?_
        cases slash with
        | none => exact hd
        | some e =>
          obtain ⟨e, hlt'⟩ := e
          exact (ih e.rest.length (Nat.lt_trans hlt' hlt) (hslash _ rfl) _ _ rfl).bind
            fun a ha => ha

theorem referenceNames_within (h : c.left ≤ n) (data : Bool) (up : Nat) (required : Bool) :
    EndsWithin n (c.referenceNames data up required) := by
  refine (names?_within h).bind fun a ha => ?_
  obtain ⟨path, d, hd⟩ := a
  cases path with
  | some path => exact ha
  | none => cases required <;> exact ha

theorem reference?_within (h : c.left ≤ n) : EndsWithin n c.reference? := by
  unfold reference?
  refine (skip_within h .atSign).bind fun a ha => ?_
  obtain ⟨data, d, hd⟩ := a
  refine (eat_within ha .thisWord).bind fun word hword => ?_
  cases word with
  | some e =>
    refine (skip_within (hword e rfl) .dot).bind fun a ha => ?_
    obtain ⟨dotted, f, hf⟩ := a
    cases dotted with
    | true => exact (referenceNames_within ha data 0 true).bind fun a ha => ha
    | false => exact ha
  | none =>
    refine (climb_within ha 0 false).bind fun a ha => ?_
    obtain ⟨⟨up, required⟩, e, he⟩ := a
    cases required with
    | some required => exact (referenceNames_within ha data up required).bind fun a ha => ha
    | none => exact ha

theorem head_within (h : c.left ≤ n) (dialect : Dialect) (fallback : Option Helper) :
    EndsWithin n (c.head dialect fallback) := by
  unfold head
  refine (names?_within h).bind fun a ha => ?_
  obtain ⟨path, d, hd⟩ := a
  cases path with
  | some path =>
    dsimp only
    split <;> exact ha
  | none =>
    refine (reference?_within ha).bind fun a ha => ?_
    obtain ⟨r, e, he⟩ := a
    cases r <;> exact ha

theorem check_within {ε : Type} (h : c.left ≤ n) (call : Call ε) (dialect : Dialect) :
    Within n (fun _ => True) (call.check dialect c) := by
  unfold Call.check
  split
  · exact True.intro
  · split
    · exact h
    · exact True.intro

structure EndWithinBelow (dialect : Dialect) (n m : Nat) : Prop where
  call : ∀ (c : Cursor) (fallback : Option Helper), c.left ≤ n → 3 * c.rest.length + 1 < m →
    EndsWithin n (c.call dialect fallback)
  expression : ∀ c : Cursor, c.left ≤ n → 3 * c.rest.length + 2 < m →
    EndsWithin n (c.expression dialect)
  operand : ∀ c : Cursor, c.left ≤ n → 3 * c.rest.length < m → EndsWithin n (c.operand? dialect)
  argument : ∀ c : Cursor, c.left ≤ n → 3 * c.rest.length + 1 < m →
    EndsWithin n (c.argument? dialect)
  arguments : ∀ c : Cursor, c.left ≤ n → 3 * c.rest.length < m →
    EndsWithin n (c.arguments dialect)

section
variable {dialect : Dialect} {m : Nat} (ih : EndWithinBelow dialect n m)
include ih

theorem call_within (h : c.left ≤ n) (hm : 3 * c.rest.length + 1 < m + 1)
    (fallback : Option Helper) : EndsWithin n (c.call dialect fallback) := by
  rw [call]
  refine (head_within h dialect fallback).bind fun a ha => ?_
  obtain ⟨head, d, hd⟩ := a
  exact (ih.arguments d ha (by omega)).bind fun a ha => ha

theorem expression_within (h : c.left ≤ n) (hm : 3 * c.rest.length + 2 < m + 1) :
    EndsWithin n (c.expression dialect) := by
  rw [expression]
  refine (ih.call c _ h (by omega)).bind fun a ha => ?_
  obtain ⟨call, d, hd⟩ := a
  dsimp only
  split
  · refine (reference?_within h).bind fun a ha => ?_
    obtain ⟨r, e, he⟩ := a
    cases r <;> exact ha
  · exact (check_within ha call dialect).bind fun _ _ => ha

theorem operand?_within (h : c.left ≤ n) (hm : 3 * c.rest.length < m + 1) :
    EndsWithin n (c.operand? dialect) := by
  rw [operand?]
  refine (reference?_within h).bind fun a ha => ?_
  obtain ⟨r, d, hd⟩ := a
  cases r with
  | some r => exact ha
  | none =>
    dsimp only
    split
    · exact (next_within ha).bind fun e he => he
    · refine (eat_within ha .leftParen).bind fun past hpast => ?_
      cases past with
      | none => exact ha
      | some e =>
        obtain ⟨e, he⟩ := e
        dsimp only at he
        refine (skip_within (hpast _ rfl) .space).bind fun a ha => ?_
        obtain ⟨_, f, hf⟩ := a
        dsimp only at hf
        refine (ih.expression f ha (by omega)).bind fun a ha => ?_
        exact (expect_within ha .rightParen).bind fun i hi => hi

theorem argument?_within (h : c.left ≤ n) (hm : 3 * c.rest.length + 1 < m + 1) :
    EndsWithin n (c.argument? dialect) := by
  rw [argument?]
  refine (names?_within h).bind fun a ha => ?_
  obtain ⟨path, d, hd⟩ := a
  dsimp only
  split
  · refine (eat_within ha .equals).bind fun past hpast => ?_
    cases past with
    | none => exact ha
    | some e =>
      obtain ⟨e, he⟩ := e
      dsimp only at he
      refine (ih.operand e (hpast _ rfl) (by omega)).bind fun a ha => ?_
      obtain ⟨value, f, hf⟩ := a
      cases value <;> exact ha
  · exact ha
  · exact (ih.operand d ha (by omega)).bind fun a ha => ha

theorem arguments_within (h : c.left ≤ n) (hm : 3 * c.rest.length < m + 1) :
    EndsWithin n (c.arguments dialect) := by
  rw [arguments]
  refine (eat_within h .space).bind fun past hpast => ?_
  cases past with
  | none => exact h
  | some d =>
    obtain ⟨d, hd⟩ := d
    refine (ih.argument d (hpast _ rfl) (by omega)).bind fun a ha => ?_
    obtain ⟨arg, e, he⟩ := a
    cases arg with
    | none => exact ha
    | some arg => exact (ih.arguments e ha (by omega)).bind fun a ha => ha

end

theorem endWithinBelow (dialect : Dialect) (n m : Nat) : EndWithinBelow dialect n m := by
  induction m with
  | zero => constructor <;> (intros; omega)
  | succ m ih =>
    exact {
      call := fun _ fallback h hm => call_within ih h hm fallback
      expression := fun _ h hm => expression_within ih h hm
      operand := fun _ h hm => operand?_within ih h hm
      argument := fun _ h hm => argument?_within ih h hm
      arguments := fun _ h hm => arguments_within ih h hm }

section
variable {dialect : Dialect} {place : Option Branch}

theorem braces_within (h : c.left ≤ n) (count : Nat) : EndsWithin n (c.braces count) := by
  induction count generalizing c with
  | zero => exact h
  | succ count ih =>
    refine (expect_within h .brace).bind fun past hpast => ?_
    exact (ih hpast).bind fun a ha => ha

theorem closer_within (h : c.left ≤ n) (extra : Nat) : EndsWithin n (c.closer extra) := by
  unfold closer
  refine (skip_within h .space).bind fun space hspace => ?_
  refine (skip_within hspace .tilde).bind fun tilde htilde => ?_
  refine (braces_within htilde _).bind fun braces hbraces => ?_
  split <;> exact hbraces

theorem blockCall_within (h : c.left ≤ n) : EndsWithin n (c.blockCall dialect) := by
  refine ((endWithinBelow dialect n _).call c _ h (Nat.lt_succ_self _)).bind fun call hcall => ?_
  exact (check_within hcall call.result dialect).bind fun _ _ => hcall

end

end Cursor

/-- A close tag can turn out to be wrong where its name begins, and no other tag can once it is
read. -/
def Tag.FaultWithin (n : Nat) (t : Tag) : Prop := ∀ name left, t = .closing name left → left ≤ n

namespace Cursor
variable {c : Cursor} {n : Nat} {dialect : Dialect} {place : Option Branch}

abbrev TagWithin (n : Nat) (x : Except Failure (c.Ahead Tag)) : Prop :=
  Within n (fun a => a.cursor.left ≤ n ∧ a.result.FaultWithin n) x

theorem otherwiseTag_within (h : c.left ≤ n) : TagWithin n (c.otherwiseTag place) := by
  unfold otherwiseTag
  split
  · exact h
  · exact h
  · exact ⟨h, nofun⟩

theorem otherwiseOpeningTag_within (h : c.left ≤ n) :
    TagWithin n (c.otherwiseOpeningTag dialect place) := by
  unfold otherwiseOpeningTag
  split
  · exact h
  · exact (blockCall_within h).bind fun _ ha => ⟨ha, nofun⟩

theorem valueTag_within (h : c.left ≤ n) (escape : Bool) : TagWithin n (c.valueTag dialect escape) :=
  ((endWithinBelow dialect n _).expression c h (Nat.lt_succ_self _)).map fun _ ha => ⟨ha, nofun⟩

theorem escapedTag_within (h : c.left ≤ n) : TagWithin n (c.escapedTag dialect place) := by
  unfold escapedTag
  refine (eat_within h .elseWord).bind fun word hword => ?_
  cases word with
  | none => exact valueTag_within h true
  | some past =>
    have hpast := hword past rfl
    dsimp only
    split
    · exact (otherwiseTag_within hpast).bind fun _ ha => ha
    · refine (skip_within hpast .space).bind fun space hspace => ?_
      split
      · exact (otherwiseOpeningTag_within hspace).bind fun _ ha => ha
      · exact (otherwiseTag_within hspace).bind fun _ ha => ha

theorem negatedTag_within (h : c.left ≤ n) : TagWithin n (c.negatedTag dialect place) := by
  unfold negatedTag
  split
  · exact otherwiseTag_within h
  · refine (reference?_within h).bind fun a ha => ?_
    obtain ⟨r, d, hd⟩ := a
    cases r with
    | none => exact ha
    | some r => exact ⟨ha, nofun⟩

theorem closingTag_within (h : c.left ≤ n) : TagWithin n c.closingTag := by
  refine (names?_within h).bind fun path hpath => ⟨hpath, ?_⟩
  rintro _ _ ⟨⟩
  exact h

theorem tag_within (h : c.left ≤ n) (sigil : Sigil) : TagWithin n (c.tag dialect place sigil) := by
  cases sigil with
  | unescaped | triple => exact valueTag_within h false
  | opening => exact (blockCall_within h).map fun _ ha => ⟨ha, nofun⟩
  | negated => exact negatedTag_within h
  | closing => exact closingTag_within h
  | _ => exact escapedTag_within h

theorem inclusionName_within (h : c.left ≤ n) : EndsWithin n c.inclusionName :=
  (names_within h).map fun _ ha => ha

theorem inclusionTag_within (h : c.left ≤ n) (dialect : Dialect) (name : String) :
    TagWithin n (c.inclusionTag dialect name) :=
  ((endWithinBelow dialect n _).arguments c h (Nat.lt_succ_self _)).bind fun _ ha => ⟨ha, nofun⟩

theorem closed_within {tag : c.Ahead Tag} (h : tag.cursor.left ≤ n) (ht : tag.result.FaultWithin n)
    (extra : Nat) : Within n (fun a => a.cursor.left ≤ n ∧ a.result.1.FaultWithin n)
      (closed extra tag) :=
  (closer_within h extra).bind fun _ ha => ⟨ha, ht⟩

theorem enter_within {cs : List Char} (h : cs.length ≤ n) :
    Within n (fun p => p.1.left ≤ n) (enter cs) := by
  refine (start_within h).bind fun p hp => ?_
  obtain ⟨c, hc⟩ := p
  exact (skip_within hp .space).bind fun _ ha => ha

end Cursor

/-- What was read in a text with `n` characters: the tag is not wrong behind these, and neither is
its last brace. -/
structure TagRead.FaultWithin {m : Nat} (n : Nat) (r : TagRead m) : Prop where
  tag : ∀ t, r.tag = some t → t.FaultWithin n
  mark : ∀ left, r.mark = some left → left ≤ n

section
variable {n : Nat} {dialect : Dialect} {place : Option Branch}

theorem TagRead.ofAhead_within {c : Cursor} {m : Nat} (hc : c.rest.length < m)
    {ahead : c.Ahead (Tag × Bool)} (h : ahead.cursor.left ≤ n) (ht : ahead.result.1.FaultWithin n) :
    (TagRead.ofAhead hc ahead).FaultWithin n where
  tag := by
    rintro _ ⟨⟩
    exact ht
  mark := by
    rintro _ ⟨⟩
    exact h

theorem TagRead.read_within {left : Nat} {opener : Opener} (hleft : left ≤ n)
    (h : opener.rest.length ≤ n) :
    Within n (TagRead.FaultWithin n) (TagRead.read dialect place left opener) := by
  have hcomment (terminator : List Char) :
      Within n (TagRead.FaultWithin n) (comment left terminator opener.rest) := by
    unfold comment
    split
    · exact hleft
    · refine ⟨?_, ?_⟩ <;> (intro _ h; cases h)
  unfold TagRead.read
  split
  · refine (Cursor.enter_within h).bind fun c hc => ?_
    obtain ⟨c, hlt⟩ := c
    refine (Cursor.blockCall_within hc).bind fun a ha => ?_
    obtain ⟨call, d, hd⟩ := a
    refine (Cursor.closer_within ha 2).bind fun a ha => ?_
    obtain ⟨trims, e, he⟩ := a
    dsimp only
    split
    · exact ha
    · refine ⟨?_, ?_⟩
      · rintro _ ⟨⟩ _ _ ⟨⟩
      · rintro _ ⟨⟩
        exact ha
  · exact hcomment _
  · exact hcomment _
  · refine (Cursor.enter_within h).bind fun c hc => ?_
    obtain ⟨c, hlt⟩ := c
    refine (Cursor.tag_within hc _).bind fun tag htag => ?_
    exact (Cursor.closed_within htag.1 htag.2 _).bind fun a ha => ofAhead_within _ ha.1 ha.2

theorem Asked.read_within {cs : List Char} (h : cs.length ≤ n) :
    Within n (fun asked => asked.left ≤ n ∧ Within n (TagRead.FaultWithin n) asked.tag)
      (Asked.read dialect cs) := by
  refine (Cursor.enter_within h).bind fun c hc => ?_
  obtain ⟨c, hlt⟩ := c
  refine (Cursor.inclusionName_within hc).bind fun a ha => ?_
  obtain ⟨name, d, hd⟩ := a
  have hclosed := (Cursor.inclusionTag_within ha dialect name).bind
    fun tag htag => Cursor.closed_within htag.1 htag.2 0
  exact ⟨hc, hclosed.map fun a ha => TagRead.ofAhead_within _ ha.1 ha.2⟩

theorem Draft.add_within {tag : Option Tag} (h : ∀ t, tag = some t → t.FaultWithin n) (d : Draft) :
    Within n (fun _ => True) (d.add tag) := by
  cases tag with
  | none => exact True.intro
  | some tag =>
    cases tag with
    | closing name left =>
      have hleft := h _ rfl name left rfl
      obtain ⟨items, blocks⟩ := d
      cases blocks with
      | nil => exact hleft
      | cons b outer =>
        unfold Draft.add Draft.addTag
        dsimp only
        split
        · exact True.intro
        · exact hleft
    | value escape e => cases escape <;> exact True.intro
    | _ => exact True.intro

theorem Draft.finish_within {mark : Nat} (h : mark ≤ n) (d : Draft) :
    Within n (fun _ => True) (d.finish mark) := by
  obtain ⟨items, blocks⟩ := d
  cases blocks with
  | nil => exact True.intro
  | cons b outer => exact h

end
end Stencil
