import Mathlib
import Stencil.Proofs.Rereading
import Stencil.Proofs.Rounds
import Stencil.Proofs.Shapes

set_option autoImplicit false

/-!
# Known helpers

Where only helpers are allowed, a source compiles if and only if it compiles without that and no call
in it is left to its value, and it comes to the same template then.
-/
namespace Stencil

/-- An expression in which each call is one of a registered helper. -/
inductive Expr.HelpersOnly : Expr → Prop
  | const (v : Value) : HelpersOnly (.const v)
  | reference (r : Reference) (invoke : Bool) : HelpersOnly (.reference r invoke)
  | call {call : Call Expr} (head : ∃ h, call.head = .helper h)
    (args : ∀ e ∈ call.args, HelpersOnly e) (hash : ∀ entry ∈ call.hash, HelpersOnly entry.2) :
    HelpersOnly (.call call)

structure Call.ArgsOnly (call : Call Expr) : Prop where
  args : ∀ e ∈ call.args, e.HelpersOnly
  hash : ∀ entry ∈ call.hash, entry.2.HelpersOnly

/-- The call of a block: one of a registered helper, or a section for the case that a reference is
empty. -/
structure Call.HelpersOnly (call : Call Expr) : Prop extends call.ArgsOnly where
  head : (∃ h, call.head = .helper h) ∨ ∃ r fallback, call.head = .negated r fallback

inductive Item.HelpersOnly : Item → Prop
  | text (text : String) : HelpersOnly (.text text)
  | escaped {e : Expr} (h : e.HelpersOnly) : HelpersOnly (.escaped e)
  | unescaped {e : Expr} (h : e.HelpersOnly) : HelpersOnly (.unescaped e)
  | block {b : Block Item} (call : b.call.HelpersOnly)
    (body : ∀ item ∈ b.body, HelpersOnly item) (inverse : ∀ item ∈ b.inverse, HelpersOnly item) :
    HelpersOnly (.block b)
  | inclusion {i : Inclusion} (args : ∀ e ∈ i.args, e.HelpersOnly)
    (hash : ∀ entry ∈ i.hash, entry.2.HelpersOnly) : HelpersOnly (.inclusion i)

inductive Argument.HelpersOnly : Argument → Prop
  | positional {e : Expr} (h : e.HelpersOnly) : HelpersOnly (.positional e)
  | named {key : String} {e : Expr} (h : e.HelpersOnly) : HelpersOnly (.named key e)

theorem Expr.helpersOnly_call {call : Call Expr} :
    (Expr.call call).HelpersOnly ↔ (∃ h, call.head = .helper h) ∧ call.ArgsOnly := by
  constructor
  · intro h
    cases h with
    | call head args hash => exact ⟨head, args, hash⟩
  · rintro ⟨head, args, hash⟩
    exact .call head args hash

theorem Argument.helpersOnly_all {args : List Argument} :
    (∀ arg ∈ args, arg.HelpersOnly) ↔
      (∀ e ∈ args.filterMap positional?, e.HelpersOnly) ∧
        ∀ entry ∈ args.filterMap named?, entry.2.HelpersOnly := by
  induction args with
  | nil => simp
  | cons arg args ih =>
    rw [List.forall_mem_cons, ih]
    cases arg with
    | positional e =>
      have hone : (positional e).HelpersOnly ↔ e.HelpersOnly :=
        ⟨fun h => by cases h; assumption, .positional⟩
      simp only [List.filterMap_cons, positional?, named?, List.forall_mem_cons, hone, and_assoc]
    | named key e =>
      have hone : (named key e).HelpersOnly ↔ e.HelpersOnly :=
        ⟨fun h => by cases h; assumption, .named⟩
      simp only [List.filterMap_cons, positional?, named?, List.forall_mem_cons, hone]
      exact and_left_comm

namespace Dialect

def strict (d : Dialect) : Dialect := { d with knownHelpersOnly := true }

def lenient (d : Dialect) : Dialect := { d with knownHelpersOnly := false }

end Dialect

/-- The second computation comes to what the first comes to, if that has the property, and to nothing
else. -/
def Narrows {ε α : Type} (p : α → Prop) (x y : Except ε α) : Prop :=
  ∀ a, y = .ok a ↔ x = .ok a ∧ p a

namespace Narrows
variable {ε α β : Type} {p : α → Prop} {q : β → Prop} {x y : Except ε α}

theorem ok {a : α} (h : p a) : Narrows (ε := ε) p (.ok a) (.ok a) := by
  intro b
  refine ⟨fun hb => ⟨hb, ?_⟩, And.left⟩
  cases hb
  exact h

theorem error {e e' : ε} : Narrows p (.error e) (.error e') := by
  intro a
  constructor
  · intro h
    cases h
  · rintro ⟨h, -⟩
    cases h

/-- What goes on from a result has the property only if that had it. -/
theorem bind (h : Narrows p x y) {f g : α → Except ε β}
    (hback : ∀ a b, x = .ok a → f a = .ok b → q b → p a) (hf : ∀ a, p a → Narrows q (f a) (g a)) :
    Narrows q (x >>= f) (y >>= g) := by
  intro b
  rw [Cursor.bind_eq_ok, Cursor.bind_eq_ok]
  constructor
  · rintro ⟨a, ha, hb⟩
    obtain ⟨hx, hp⟩ := (h a).1 ha
    obtain ⟨hfb, hq⟩ := (hf a hp b).1 hb
    exact ⟨⟨a, hx, hfb⟩, hq⟩
  · rintro ⟨⟨a, hx, hfb⟩, hq⟩
    have hp := hback a b hx hfb hq
    exact ⟨a, (h a).2 ⟨hx, hp⟩, (hf a hp b).2 ⟨hfb, hq⟩⟩

theorem bind_same {x : Except ε α} {f g : α → Except ε β} (hf : ∀ a, Narrows q (f a) (g a)) :
    Narrows q (x >>= f) (x >>= g) := by
  cases x with
  | error e => exact error
  | ok a => exact hf a

theorem map (h : Narrows p x y) {f : α → β} (hq : ∀ a, q (f a) ↔ p a) :
    Narrows q (f <$> x) (f <$> y) := by
  rw [map_eq_pure_bind, map_eq_pure_bind]
  refine bind h (fun a b _ hb hqb => ?_) fun a ha => ok ((hq a).2 ha)
  cases hb
  exact (hq a).1 hqb

end Narrows

namespace Cursor
variable {d : Dialect} {c : Cursor}

/-- The check lets a call of a helper pass, and no other where only helpers are allowed. -/
theorem check_narrows (call : Call Expr) (e : Cursor) :
    Narrows (fun _ => ∃ h, call.head = .helper h) (call.check d.lenient e)
      (call.check d.strict e) := by
  unfold Call.check
  split
  · next h hhead => exact .ok ⟨h, hhead⟩
  · next hhead =>
    rintro ⟨⟩
    constructor
    · intro h
      cases h
    · rintro ⟨-, h, heq⟩
      exact absurd heq (hhead h)

structure NarrowsBelow (d : Dialect) (n : Nat) : Prop where
  call : ∀ (c : Cursor) (fallback : Option Helper), 3 * c.rest.length + 1 < n →
    Narrows (fun a => a.result.ArgsOnly) (c.call d.lenient fallback) (c.call d.strict fallback)
  expression : ∀ c : Cursor, 3 * c.rest.length + 2 < n →
    Narrows (fun a => a.result.HelpersOnly) (c.expression d.lenient) (c.expression d.strict)
  operand : ∀ c : Cursor, 3 * c.rest.length < n →
    Narrows (fun a => ∀ e, a.result = some e → e.HelpersOnly) (c.operand? d.lenient)
      (c.operand? d.strict)
  argument : ∀ c : Cursor, 3 * c.rest.length + 1 < n →
    Narrows (fun a => ∀ arg, a.result = some arg → arg.HelpersOnly) (c.argument? d.lenient)
      (c.argument? d.strict)
  arguments : ∀ c : Cursor, 3 * c.rest.length < n →
    Narrows (fun a => ∀ arg ∈ a.result, arg.HelpersOnly) (c.arguments d.lenient)
      (c.arguments d.strict)

section
variable {n : Nat} (ih : NarrowsBelow d n)
include ih

theorem call_narrows (hn : 3 * c.rest.length + 1 < n + 1) (fallback : Option Helper) :
    Narrows (fun a => a.result.ArgsOnly) (c.call d.lenient fallback) (c.call d.strict fallback) := by
  rw [call, call]
  refine .bind_same fun a => ?_
  obtain ⟨head, e, he⟩ := a
  refine .bind (ih.arguments e (by omega)) (fun a b _ hb hargs => ?_) fun a hargs => ?_
  · cases hb
    exact Argument.helpersOnly_all.2 ⟨hargs.args, hargs.hash⟩
  · obtain ⟨hpositional, hnamed⟩ := Argument.helpersOnly_all.1 hargs
    exact .ok ⟨hpositional, hnamed⟩

theorem expression_narrows (hn : 3 * c.rest.length + 2 < n + 1) :
    Narrows (fun a => a.result.HelpersOnly) (c.expression d.lenient) (c.expression d.strict) := by
  rw [expression, expression]
  refine .bind (ih.call c d.callFallback (by omega)) (fun a b _ hb hexpr => ?_) fun a hargs => ?_
  · obtain ⟨call, e, he⟩ := a
    dsimp only at hb
    split at hb
    · next hbare =>
      obtain ⟨hargs, hhash⟩ := isBare_args hbare
      exact ⟨by rw [hargs]; exact List.forall_mem_nil _, by rw [hhash]; exact List.forall_mem_nil _⟩
    · obtain ⟨-, -, hb⟩ := bind_eq_ok.1 hb
      cases hb
      exact (Expr.helpersOnly_call.1 hexpr).2
  · obtain ⟨call, e, he⟩ := a
    dsimp only
    split
    · refine .bind_same fun a => ?_
      obtain ⟨r, f, hf⟩ := a
      cases r with
      | none => exact .error
      | some r => exact .ok (.reference r _)
    · refine .bind (check_narrows call e) (fun _ b _ hb hexpr => ?_) fun _ hhead => ?_
      · cases hb
        exact (Expr.helpersOnly_call.1 hexpr).1
      · exact .ok (Expr.helpersOnly_call.2 ⟨hhead, hargs⟩)

theorem operand?_narrows (hn : 3 * c.rest.length < n + 1) :
    Narrows (fun a => ∀ e, a.result = some e → e.HelpersOnly) (c.operand? d.lenient)
      (c.operand? d.strict) := by
  rw [operand?, operand?]
  refine .bind_same fun a => ?_
  obtain ⟨r, e, he⟩ := a
  cases r with
  | some r =>
    refine .ok fun e he => ?_
    cases he
    exact .reference r _
  | none =>
    dsimp only
    split
    · refine .bind_same fun past => .ok fun e he => ?_
      cases he
      exact .const _
    · refine .bind_same fun past => ?_
      cases past with
      | none => exact .ok nofun
      | some past =>
        obtain ⟨f, hf⟩ := past
        refine .bind_same fun a => ?_
        obtain ⟨-, g, hg⟩ := a
        refine .bind (ih.expression g (by omega)) (fun a b _ hb hinner => ?_) fun a hinner => ?_
        · obtain ⟨_, _, hb⟩ := bind_eq_ok.1 hb
          cases hb
          exact hinner _ rfl
        · refine .bind_same fun past => .ok fun e he => ?_
          cases he
          exact hinner

theorem argument?_narrows (hn : 3 * c.rest.length + 1 < n + 1) :
    Narrows (fun a => ∀ arg, a.result = some arg → arg.HelpersOnly) (c.argument? d.lenient)
      (c.argument? d.strict) := by
  have hreference (r : Reference) (arg : Argument)
      (h : some (Argument.positional (d.reference r)) = some arg) : arg.HelpersOnly := by
    cases h
    exact .positional (.reference r _)
  rw [argument?, argument?]
  refine .bind_same fun a => ?_
  obtain ⟨path, e, he⟩ := a
  dsimp only
  split
  · refine .bind_same fun past => ?_
    cases past with
    | none => exact .ok (hreference _)
    | some past =>
      obtain ⟨f, hf⟩ := past
      refine .bind (ih.operand f (by omega)) (fun a b _ hb harg => ?_) fun a hvalue => ?_
      · obtain ⟨value, g, hg⟩ := a
        cases value with
        | none => cases hb
        | some value =>
          cases hb
          rintro _ ⟨⟩
          cases harg _ rfl with
          | named h => exact h
      · obtain ⟨value, g, hg⟩ := a
        cases value with
        | none => exact .error
        | some value =>
          refine .ok fun arg harg => ?_
          cases harg
          exact .named (hvalue value rfl)
  · exact .ok (hreference _)
  · refine .bind (ih.operand e (by omega)) (fun a b _ hb harg => ?_) fun a hvalue => ?_
    · cases hb
      intro value heq
      cases harg (.positional value) (by rw [heq]; rfl) with
      | positional h => exact h
    · refine .ok fun arg harg => ?_
      obtain ⟨value, heq, rfl⟩ := Option.map_eq_some_iff.1 harg
      exact .positional (hvalue value heq)

theorem arguments_narrows (hn : 3 * c.rest.length < n + 1) :
    Narrows (fun a => ∀ arg ∈ a.result, arg.HelpersOnly) (c.arguments d.lenient)
      (c.arguments d.strict) := by
  rw [arguments, arguments]
  refine .bind_same fun past => ?_
  cases past with
  | none => exact .ok (List.forall_mem_nil _)
  | some past =>
    obtain ⟨e, he⟩ := past
    refine .bind (ih.argument e (by omega)) (fun a b _ hb hargs => ?_) fun a harg => ?_
    · obtain ⟨arg, f, hf⟩ := a
      cases arg with
      | none =>
        intro arg harg
        cases harg
      | some arg =>
        obtain ⟨_, -, hb⟩ := bind_eq_ok.1 hb
        cases hb
        rintro _ ⟨⟩
        exact hargs arg List.mem_cons_self
    · obtain ⟨arg, f, hf⟩ := a
      cases arg with
      | none => exact .ok (List.forall_mem_nil _)
      | some arg =>
        refine .bind (ih.arguments f (by omega)) (fun a b _ hb hargs => ?_) fun a hargs => ?_
        · cases hb
          exact (List.forall_mem_cons.1 hargs).2
        · exact .ok (List.forall_mem_cons.2 ⟨harg arg rfl, hargs⟩)

end

theorem narrowsBelow (d : Dialect) (n : Nat) : NarrowsBelow d n := by
  induction n with
  | zero => constructor <;> (intros; omega)
  | succ n ih =>
    exact {
      call := fun _ fallback hn => call_narrows ih hn fallback
      expression := fun _ hn => expression_narrows ih hn
      operand := fun _ hn => operand?_narrows ih hn
      argument := fun _ hn => argument?_narrows ih hn
      arguments := fun _ hn => arguments_narrows ih hn }

end Cursor

inductive Tag.HelpersOnly : Tag → Prop
  | value {escape : Bool} {e : Expr} (h : e.HelpersOnly) : Tag.HelpersOnly (.value escape e)
  | opening {call : Call Expr} (h : call.HelpersOnly) : Tag.HelpersOnly (.opening call)
  | otherwise : Tag.HelpersOnly .otherwise
  | otherwiseOpening {call : Call Expr} (h : call.HelpersOnly) :
    Tag.HelpersOnly (.otherwiseOpening call)
  | closing (name : String) (left : Nat) : Tag.HelpersOnly (.closing name left)
  | raw {call : Call Expr} (body : List Char) (h : call.HelpersOnly) :
    Tag.HelpersOnly (.raw call body)
  | inclusion {i : Inclusion} (args : ∀ e ∈ i.args, e.HelpersOnly)
    (hash : ∀ entry ∈ i.hash, entry.2.HelpersOnly) : Tag.HelpersOnly (.inclusion i)

namespace Cursor
variable {d : Dialect} {place : Option Branch} {c : Cursor}

theorem call_ne_negated (fallback : Option Helper) :
    Always (fun a => ∀ r other, a.result.head ≠ .negated r other) (c.call d fallback) := by
  rw [call]
  refine .bind (p := fun a => ∀ r other, a.result ≠ .negated r other) ?_ fun a hhead => ?_
  · have hhelper (h : Helper) (r : Reference) (other : Option Helper) :
        Head.helper h ≠ .negated r other := by simp
    have hvalue (r' : Reference) (r : Reference) (other : Option Helper) :
        Head.value r' fallback ≠ .negated r other := by simp
    unfold head
    refine .bind .trivial fun a _ => ?_
    obtain ⟨path, e, he⟩ := a
    cases path with
    | some path =>
      dsimp only
      split
      · exact .ok (hhelper _)
      · exact .ok (hvalue _)
    | none =>
      refine .bind .trivial fun a _ => ?_
      obtain ⟨r, f, hf⟩ := a
      cases r with
      | none => exact .error
      | some r => exact .ok (hvalue r)
  · exact .bind .trivial fun _ _ => .ok hhead

theorem blockCall_narrows :
    Narrows (fun a => a.result.HelpersOnly) (c.blockCall d.lenient) (c.blockCall d.strict) := by
  have hcall := (narrowsBelow d _).call c d.blockFallback (Nat.lt_succ_self _)
  unfold blockCall
  refine .bind (p := fun a => a.result.ArgsOnly ∧ ∀ r other, a.result.head ≠ .negated r other)
    (fun a => ?_) (fun a b ha hb honly => ?_) fun a hargs => ?_
  · refine (hcall a).trans (and_congr_right fun ha => ?_)
    exact (and_iff_left (call_ne_negated d.blockFallback a ha)).symm
  · obtain ⟨-, -, hb⟩ := bind_eq_ok.1 hb
    cases hb
    exact ⟨honly.toArgsOnly, call_ne_negated d.blockFallback a ha⟩
  · refine .bind (check_narrows a.result a.cursor) (fun _ b _ hb honly => ?_) fun _ hhead => ?_
    · cases hb
      refine honly.head.resolve_right ?_
      rintro ⟨r, other, heq⟩
      exact hargs.2 r other heq
    · exact .ok ⟨hargs.1, .inl hhead⟩

theorem otherwiseOpeningTag_narrows :
    Narrows (fun a => a.result.HelpersOnly) (c.otherwiseOpeningTag d.lenient place)
      (c.otherwiseOpeningTag d.strict place) := by
  unfold otherwiseOpeningTag
  split
  · exact .error
  · refine .bind blockCall_narrows (fun a b _ hb honly => ?_) fun a hcall => ?_
    · cases hb
      cases honly with
      | otherwiseOpening h => exact h
    · exact .ok (.otherwiseOpening hcall)

theorem otherwiseTag_narrows :
    Narrows (fun a => a.result.HelpersOnly) (c.otherwiseTag place) (c.otherwiseTag place) := by
  unfold otherwiseTag
  split
  · exact .error
  · exact .error
  · exact .ok .otherwise

theorem valueTag_narrows (escape : Bool) :
    Narrows (fun a => a.result.HelpersOnly) (c.valueTag d.lenient escape)
      (c.valueTag d.strict escape) := by
  refine .map ((narrowsBelow d _).expression c (Nat.lt_succ_self _)) fun a => ⟨fun h => ?_, .value⟩
  cases h with
  | value h => exact h

theorem escapedTag_narrows :
    Narrows (fun a => a.result.HelpersOnly) (c.escapedTag d.lenient place)
      (c.escapedTag d.strict place) := by
  unfold escapedTag
  refine .bind_same fun word => ?_
  cases word with
  | none => exact valueTag_narrows true
  | some past =>
    dsimp only
    split
    · exact .bind otherwiseTag_narrows (fun _ _ _ hb honly => by cases hb; exact honly)
        fun _ h => .ok h
    · refine .bind_same fun space => ?_
      split
      · exact .bind otherwiseOpeningTag_narrows (fun _ _ _ hb honly => by cases hb; exact honly)
          fun _ h => .ok h
      · exact .bind otherwiseTag_narrows (fun _ _ _ hb honly => by cases hb; exact honly)
          fun _ h => .ok h

theorem negatedTag_narrows :
    Narrows (fun a => a.result.HelpersOnly) (c.negatedTag d.lenient place)
      (c.negatedTag d.strict place) := by
  unfold negatedTag
  split
  · exact otherwiseTag_narrows
  · refine .bind_same fun r => ?_
    obtain ⟨r, e, he⟩ := r
    cases r with
    | none => exact .error
    | some r => exact .ok (.opening ⟨⟨nofun, nofun⟩, .inr ⟨r, _, rfl⟩⟩)

theorem tag_narrows (sigil : Sigil) :
    Narrows (fun a => a.result.HelpersOnly) (c.tag d.lenient place sigil)
      (c.tag d.strict place sigil) := by
  cases sigil with
  | unescaped | triple => exact valueTag_narrows false
  | opening =>
    refine .map blockCall_narrows fun a => ⟨fun h => ?_, .opening⟩
    cases h with
    | opening h => exact h
  | negated => exact negatedTag_narrows
  | closing => exact .bind_same fun _ => .ok (.closing _ _)
  | _ => exact escapedTag_narrows

theorem inclusionTag_narrows (name : String) :
    Narrows (fun a => a.result.HelpersOnly) (c.inclusionTag d.lenient name)
      (c.inclusionTag d.strict name) := by
  refine .bind ((narrowsBelow d _).arguments c (Nat.lt_succ_self _)) (fun a b _ hb honly => ?_)
    fun a hargs => ?_
  · cases hb
    cases honly with
    | inclusion hargs hhash => exact Argument.helpersOnly_all.2 ⟨hargs, hhash⟩
  · obtain ⟨hpositional, hnamed⟩ := Argument.helpersOnly_all.1 hargs
    exact .ok (.inclusion hpositional hnamed)

theorem closed_narrows {n : Nat} {x y : Except Failure (c.Ahead Tag)}
    (h : Narrows (fun a => a.result.HelpersOnly) x y) (extra : Nat) (hc : c.rest.length < n) :
    Narrows (fun r : TagRead n => ∀ tag, r.tag = some tag → tag.HelpersOnly)
      (TagRead.ofAhead hc <$> (x >>= closed extra)) (TagRead.ofAhead hc <$> (y >>= closed extra)) := by
  refine .map (p := fun a => a.result.1.HelpersOnly) (.bind h (fun a b _ hb honly => ?_)
    fun a ha => .bind_same fun _ => .ok ha) fun a => ⟨fun h => h _ rfl, fun h tag htag => ?_⟩
  · obtain ⟨_, -, hb⟩ := bind_eq_ok.1 hb
    cases hb
    exact honly
  · cases htag
    exact h

end Cursor

section
variable {d : Dialect}

theorem TagRead.read_narrows (place : Option Branch) (left : Nat) (opener : Opener) :
    Narrows (fun r => ∀ tag, r.tag = some tag → tag.HelpersOnly)
      (TagRead.read d.lenient place left opener) (TagRead.read d.strict place left opener) := by
  have hcomment (terminator : List Char) :
      Narrows (fun r => ∀ tag, r.tag = some tag → tag.HelpersOnly)
        (comment left terminator opener.rest) (comment left terminator opener.rest) := by
    unfold comment
    split
    · exact .error
    · refine .ok fun tag htag => ?_
      cases htag
  unfold TagRead.read
  split
  · unfold raw
    refine .bind_same fun c => ?_
    obtain ⟨c, hc⟩ := c
    refine .bind Cursor.blockCall_narrows (fun a b _ hb honly => ?_) fun a hcall => ?_
    · obtain ⟨call, e, he⟩ := a
      obtain ⟨⟨trims, f, hf⟩, -, hb⟩ := Cursor.bind_eq_ok.1 hb
      dsimp only at hb
      split at hb
      · cases hb
      · cases hb
        cases honly _ rfl with
        | raw _ h => exact h
    · obtain ⟨call, e, he⟩ := a
      refine .bind_same fun trims => ?_
      obtain ⟨trims, f, hf⟩ := trims
      dsimp only
      split
      · exact .error
      · refine .ok fun tag htag => ?_
        cases htag
        exact .raw _ hcall
  · exact hcomment _
  · exact hcomment _
  · refine .bind_same fun c => ?_
    obtain ⟨c, hc⟩ := c
    have htag : Narrows (fun a => a.result.HelpersOnly) (c.tag d.lenient place opener.sigil)
        (c.tag d.strict place opener.sigil) := Cursor.tag_narrows opener.sigil
    have h := Cursor.closed_narrows htag opener.sigil.extraBraces hc
    simpa only [map_eq_pure_bind, bind_assoc] using h

/-- The tag at an opener, where each partial that is asked for is taken to be there. -/
def TagRead.answered (d : Dialect) (place : Option Branch) (left : Nat) (opener : Opener) :
    Except Failure (TagRead opener.rest.length) :=
  match opener.sigil with
  | .inclusion => Asked.read d opener.rest >>= Asked.tag
  | _ => TagRead.read d place left opener

theorem TagRead.answered_narrows (place : Option Branch) (left : Nat) (opener : Opener) :
    Narrows (fun r => ∀ tag, r.tag = some tag → tag.HelpersOnly)
      (answered d.lenient place left opener) (answered d.strict place left opener) := by
  unfold answered
  split
  · unfold Asked.read
    rw [bind_assoc, bind_assoc]
    refine .bind_same fun c => ?_
    obtain ⟨c, hc⟩ := c
    dsimp only
    rw [bind_assoc, bind_assoc]
    refine .bind_same fun name => ?_
    obtain ⟨name, e, he⟩ := name
    exact Cursor.closed_narrows (Cursor.inclusionTag_narrows name) 0 _
  · exact read_narrows place left opener

theorem Item.helpersOnly_block {b : Block Item} :
    (Item.block b).HelpersOnly ↔ b.call.HelpersOnly ∧ (∀ item ∈ b.body, item.HelpersOnly) ∧
      ∀ item ∈ b.inverse, item.HelpersOnly := by
  constructor
  · intro h
    cases h with
    | block call body inverse => exact ⟨call, body, inverse⟩
  · rintro ⟨call, body, inverse⟩
    exact .block call body inverse

structure Draft.HelpersOnly (draft : Draft) : Prop where
  items : ∀ item ∈ draft.items, item.HelpersOnly
  blocks : ∀ b ∈ draft.blocks, b.toItem.HelpersOnly

namespace OpenBlock

theorem helpersOnly_push {b : OpenBlock} {item : Item} :
    (b.push item).toItem.HelpersOnly ↔ b.toItem.HelpersOnly ∧ item.HelpersOnly := by
  obtain ⟨call, chained, branch, body, inverse⟩ := b
  cases branch <;>
    simp only [push, toItem, Item.helpersOnly_block, List.forall_mem_append,
      List.forall_mem_singleton, and_assoc]
  rw [and_comm (a := item.HelpersOnly)]

theorem helpersOnly_closeNamed {name : String} {b : OpenBlock} {outer blocks : List OpenBlock}
    {item : Item} (h : b.closeNamed name outer = .ok (item, blocks)) :
    (item.HelpersOnly ∧ ∀ c ∈ blocks, c.toItem.HelpersOnly) ↔
      ∀ c ∈ b :: outer, c.toItem.HelpersOnly := by
  unfold closeNamed at h
  split at h <;> cases h
  rw [List.forall_mem_cons]

theorem helpersOnly_close {name : String} {b : OpenBlock} {outer blocks : List OpenBlock}
    {item : Item} (h : b.close name outer = .ok (item, blocks)) :
    (item.HelpersOnly ∧ ∀ c ∈ blocks, c.toItem.HelpersOnly) ↔
      ∀ c ∈ b :: outer, c.toItem.HelpersOnly := by
  induction outer generalizing b with
  | nil =>
    unfold close at h
    split at h
    · cases h
    · exact helpersOnly_closeNamed h
  | cons next outer ih =>
    unfold close at h
    split at h
    · rw [ih h, List.forall_mem_cons, helpersOnly_push, List.forall_mem_cons, List.forall_mem_cons,
        and_assoc]
      exact and_left_comm
    · exact helpersOnly_closeNamed h

end OpenBlock

namespace Draft
variable {draft draft' : Draft}

theorem helpersOnly_push {item : Item} :
    (draft.push item).HelpersOnly ↔ draft.HelpersOnly ∧ item.HelpersOnly := by
  obtain ⟨items, blocks⟩ := draft
  cases blocks with
  | nil =>
    constructor
    · rintro ⟨hitems, hblocks⟩
      obtain ⟨hitems, hitem⟩ := List.forall_mem_append.1 hitems
      exact ⟨⟨hitems, hblocks⟩, List.forall_mem_singleton.1 hitem⟩
    · rintro ⟨⟨hitems, hblocks⟩, hitem⟩
      exact ⟨List.forall_mem_append.2 ⟨hitems, List.forall_mem_singleton.2 hitem⟩, hblocks⟩
  | cons b outer =>
    constructor
    · rintro ⟨hitems, hblocks⟩
      obtain ⟨hb, houter⟩ := List.forall_mem_cons.1 hblocks
      obtain ⟨hb, hitem⟩ := OpenBlock.helpersOnly_push.1 hb
      exact ⟨⟨hitems, List.forall_mem_cons.2 ⟨hb, houter⟩⟩, hitem⟩
    · rintro ⟨⟨hitems, hblocks⟩, hitem⟩
      obtain ⟨hb, houter⟩ := List.forall_mem_cons.1 hblocks
      exact ⟨hitems, List.forall_mem_cons.2 ⟨OpenBlock.helpersOnly_push.2 ⟨hb, hitem⟩, houter⟩⟩

theorem helpersOnly_pushText (text : List Char) :
    (draft.pushText text).HelpersOnly ↔ draft.HelpersOnly := by
  unfold pushText
  split
  · rfl
  · exact helpersOnly_push.trans (and_iff_left (.text _))

theorem helpersOnly_openBlock (call : Call Expr) (chained : Bool) :
    (draft.openBlock call chained).HelpersOnly ↔ draft.HelpersOnly ∧ call.HelpersOnly := by
  constructor
  · rintro ⟨hitems, hblocks⟩
    obtain ⟨hb, houter⟩ := List.forall_mem_cons.1 hblocks
    exact ⟨⟨hitems, houter⟩, (Item.helpersOnly_block.1 hb).1⟩
  · rintro ⟨⟨hitems, hblocks⟩, hcall⟩
    have hb : (OpenBlock.mk call chained .main [] []).toItem.HelpersOnly :=
      Item.helpersOnly_block.2 ⟨hcall, List.forall_mem_nil _, List.forall_mem_nil _⟩
    exact ⟨hitems, List.forall_mem_cons.2 ⟨hb, hblocks⟩⟩

theorem helpersOnly_toInverse : draft.toInverse.HelpersOnly ↔ draft.HelpersOnly := by
  obtain ⟨items, blocks⟩ := draft
  cases blocks with
  | nil => rfl
  | cons b outer =>
    constructor <;> rintro ⟨hitems, hblocks⟩ <;>
      obtain ⟨hb, houter⟩ := List.forall_mem_cons.1 hblocks
    · exact ⟨hitems, List.forall_mem_cons.2 ⟨hb, houter⟩⟩
    · exact ⟨hitems, List.forall_mem_cons.2 ⟨hb, houter⟩⟩

theorem helpersOnly_addTag {tag : Tag} (h : draft.addTag tag = .ok draft') :
    draft'.HelpersOnly ↔ draft.HelpersOnly ∧ tag.HelpersOnly := by
  cases tag with
  | value escape e =>
    have hvalue : (Tag.value escape e).HelpersOnly ↔ e.HelpersOnly :=
      ⟨fun h => by cases h; assumption, .value⟩
    have hescaped : (Item.escaped e).HelpersOnly ↔ e.HelpersOnly :=
      ⟨fun h => by cases h; assumption, .escaped⟩
    have hunescaped : (Item.unescaped e).HelpersOnly ↔ e.HelpersOnly :=
      ⟨fun h => by cases h; assumption, .unescaped⟩
    cases escape <;> cases h
    · rw [helpersOnly_push, hvalue, hunescaped]
    · rw [helpersOnly_push, hvalue, hescaped]
  | opening call =>
    have hopening : (Tag.opening call).HelpersOnly ↔ call.HelpersOnly :=
      ⟨fun h => by cases h; assumption, .opening⟩
    cases h
    rw [helpersOnly_openBlock, hopening]
  | otherwise =>
    cases h
    exact helpersOnly_toInverse.trans (and_iff_left .otherwise).symm
  | otherwiseOpening call =>
    have hopening : (Tag.otherwiseOpening call).HelpersOnly ↔ call.HelpersOnly :=
      ⟨fun h => by cases h; assumption, .otherwiseOpening⟩
    cases h
    rw [helpersOnly_openBlock, helpersOnly_toInverse, hopening]
  | raw call body =>
    have hraw : (Tag.raw call body).HelpersOnly ↔ call.HelpersOnly :=
      ⟨fun h => by cases h; assumption, .raw body⟩
    cases h
    rw [helpersOnly_push, hraw, Item.helpersOnly_block]
    refine and_congr_right fun _ => and_iff_left ⟨fun item hitem => ?_, List.forall_mem_nil _⟩
    split at hitem
    · cases hitem
    · cases List.mem_singleton.1 hitem
      exact .text _
  | inclusion i =>
    have hinclusion : (Tag.inclusion i).HelpersOnly ↔ (Item.inclusion i).HelpersOnly :=
      ⟨fun h => by cases h; constructor <;> assumption,
        fun h => by cases h; constructor <;> assumption⟩
    cases h
    rw [helpersOnly_push, hinclusion]
  | closing name left =>
    obtain ⟨items, blocks⟩ := draft
    cases blocks with
    | nil => cases h
    | cons b outer =>
      simp only [addTag] at h
      split at h
      · next item blocks hclose =>
        cases h
        have hparts := OpenBlock.helpersOnly_close hclose
        rw [helpersOnly_push, and_iff_left (Tag.HelpersOnly.closing name left)]
        constructor
        · rintro ⟨⟨hitems, hblocks⟩, hitem⟩
          exact ⟨hitems, hparts.1 ⟨hitem, hblocks⟩⟩
        · rintro ⟨hitems, hblocks⟩
          obtain ⟨hitem, hblocks⟩ := hparts.2 hblocks
          exact ⟨⟨hitems, hblocks⟩, hitem⟩
      · cases h

theorem helpersOnly_add {tag : Option Tag} (h : draft.add tag = .ok draft') :
    draft'.HelpersOnly ↔ draft.HelpersOnly ∧ ∀ t, tag = some t → t.HelpersOnly := by
  cases tag with
  | none =>
    cases h
    exact (and_iff_left nofun).symm
  | some tag =>
    rw [helpersOnly_addTag h]
    simp only [Option.some.injEq, forall_eq']

end Draft

namespace Outline
variable {cs text inside : List Char}

theorem ending_onward (pushed : Draft) (mark : Nat) {n : Nat}
    (tag : Except Failure (TagRead n)) :
    (onward d pushed mark tag).ending =
      (do
        let r ← tag
        let draft ← pushed.add r.tag
        (read d draft r.trims (r.mark.getD mark) r.rest).ending) := by
  cases tag with
  | error f => rfl
  | ok r =>
    dsimp only [onward, bind, Except.bind]
    cases pushed.add r.tag <;> rfl

theorem ending_some (hplain : Text.plain cs = (text, some inside)) (draft : Draft) (trims : Bool)
    (mark : Nat) :
    let opener := Opener.read inside
    let pushed := draft.pushText (Text.trimIf trims opener.trims text)
    (read d draft trims mark cs).ending =
      (onward d pushed mark
        (TagRead.answered d pushed.place (inside.length + 2) opener)).ending := by
  rw [read_at_tag hplain]
  simp only [atTag, TagRead.answered]
  generalize draft.pushText _ = pushed
  generalize Opener.read inside = opener
  cases opener.sigil with
  | inclusion => cases Asked.read d opener.rest <;> rfl
  | _ => rfl

theorem helpersOnly_finish (draft : Draft) (mark : Nat) :
    Always (fun items => (∀ item ∈ items, item.HelpersOnly) ↔ draft.HelpersOnly)
      (ofExcept (draft.finish mark)).ending := by
  obtain ⟨items, blocks⟩ := draft
  cases blocks with
  | nil => exact .ok ⟨fun h => ⟨h, List.forall_mem_nil _⟩, Draft.HelpersOnly.items⟩
  | cons b outer => exact .error

theorem draft_helpersOnly (draft : Draft) (trims : Bool) (mark : Nat) (cs : List Char) :
    Always (fun items => (∀ item ∈ items, item.HelpersOnly) → draft.HelpersOnly)
      (read d draft trims mark cs).ending := by
  induction hn : cs.length using Nat.strongRecOn generalizing draft trims mark cs with
  | ind n ih =>
    subst hn
    intro items hitems honly
    cases hplain : (Text.plain cs).2 with
    | none =>
      rw [read_none (Prod.ext rfl hplain)] at hitems
      exact (Draft.helpersOnly_pushText _).1 ((helpersOnly_finish _ mark items hitems).1 honly)
    | some inside =>
      rw [ending_some (Prod.ext rfl hplain), ending_onward] at hitems
      obtain ⟨r, -, hitems⟩ := Cursor.bind_eq_ok.1 hitems
      obtain ⟨draft', hadd, hitems⟩ := Cursor.bind_eq_ok.1 hitems
      have hlt := Text.length_lt_of_plain hplain
      have hopener := Opener.read_length inside
      have hle := r.le
      have hdraft := ih r.rest.length (by omega) draft' r.trims _ r.rest rfl items hitems honly
      exact (Draft.helpersOnly_pushText _).1 ((Draft.helpersOnly_add hadd).1 hdraft).1

theorem read_narrows (draft : Draft) (trims : Bool) (mark : Nat) (cs : List Char)
    (h : draft.HelpersOnly) :
    Narrows (fun items => ∀ item ∈ items, item.HelpersOnly)
      (read d.lenient draft trims mark cs).ending (read d.strict draft trims mark cs).ending := by
  induction hn : cs.length using Nat.strongRecOn generalizing draft trims mark cs with
  | ind n ih =>
    subst hn
    cases hplain : (Text.plain cs).2 with
    | none =>
      rw [read_none (Prod.ext rfl hplain), read_none (Prod.ext rfl hplain)]
      have hpushed := (Draft.helpersOnly_pushText (Text.trimIf trims false (Text.plain cs).1)).2 h
      intro items
      refine (and_iff_left_of_imp fun hitems => ?_).symm
      exact (helpersOnly_finish _ mark items hitems).2 hpushed
    | some inside =>
      rw [ending_some (Prod.ext rfl hplain), ending_some (Prod.ext rfl hplain), ending_onward,
        ending_onward]
      have hpushed := (Draft.helpersOnly_pushText
        (Text.trimIf trims (Opener.read inside).trims (Text.plain cs).1)).2 h
      revert hpushed
      generalize draft.pushText _ = pushed
      intro hpushed
      refine .bind (TagRead.answered_narrows _ _ _) (fun r items _ hitems honly => ?_)
        fun r htag => ?_
      · obtain ⟨draft', hadd, hitems⟩ := Cursor.bind_eq_ok.1 hitems
        have hdraft := draft_helpersOnly draft' _ _ _ items hitems honly
        exact ((Draft.helpersOnly_add hadd).1 hdraft).2
      · cases hadd : pushed.add r.tag with
        | error f => exact .error
        | ok draft' =>
          have hlt := Text.length_lt_of_plain hplain
          have hopener := Opener.read_length inside
          have hle := r.le
          exact ih r.rest.length (by omega) draft' r.trims _ r.rest
            ((Draft.helpersOnly_add hadd).2 ⟨hpushed, htag⟩) rfl

/-- The source comes to items where only helpers are allowed, if without that it comes to the same
items and each call in these is one of a helper. -/
theorem ofSource_narrows (d : Dialect) (source : String) :
    Narrows (fun items => ∀ item ∈ items, item.HelpersOnly) (ofSource d.lenient source).ending
      (ofSource d.strict source).ending :=
  read_narrows {} false 0 source.toList ⟨List.forall_mem_nil _, List.forall_mem_nil _⟩

theorem asks_strict {source : String} {items : List Item}
    (hasks : (ofSource d.lenient source).asks = [])
    (h : (ofSource d.strict source).ending = .ok items) : (ofSource d.strict source).asks = [] := by
  have hlenient := ((ofSource_narrows d source items).1 h).1
  refine List.eq_nil_iff_forall_not_mem.2 fun name hname => ?_
  rw [← mem_includes_iff h, mem_includes_iff hlenient, hasks] at hname
  cases hname

theorem link_unasked {σ : Type} {outline : Outline} {source : String}
    {ask : String → StateM σ (Except TemplateError (Option Target))} {links : Dict Target}
    {t : Template} {s s' : σ} (hasks : outline.asks = []) :
    outline.link source ask links s = (.ok t, s') ↔
      outline.ending = .ok t.items ∧ t = ⟨source, t.items, links⟩ ∧ s' = s := by
  refine ⟨fun h => ⟨ending_of_link h, ?_⟩, ?_⟩
  · cases outline with
    | finished items => cases h; exact ⟨rfl, rfl⟩
    | failed f => cases h
    | asking name left next => cases hasks
  · rintro ⟨hending, ht, rfl⟩
    cases outline with
    | finished items => cases hending; rw [ht]; rfl
    | failed f => cases hending
    | asking name left next => cases hasks

end Outline

/-- A source that asks for no partial compiles where only helpers are allowed if and only if it
compiles without that and each call in it, at any depth, is one of a helper or a section for the
empty case. It compiles to the same template then. -/
theorem compile_strict_iff (d : Dialect) (waiting : Dict String) (source : String)
    (hasks : (Outline.ofSource d.lenient source).asks = []) (shelf shelf' : Shelf) (t : Template) :
    compile d.strict waiting source shelf = (.ok t, shelf') ↔
      compile d.lenient waiting source shelf = (.ok t, shelf') ∧
        ∀ item ∈ t.items, item.HelpersOnly := by
  have hnarrows := Outline.ofSource_narrows d source t.items
  unfold compile
  rw [Outline.link_unasked hasks]
  constructor
  · intro h
    have hstrict := Outline.asks_strict hasks (Outline.ending_of_link h)
    obtain ⟨hending, hrest⟩ := (Outline.link_unasked hstrict).1 h
    obtain ⟨hlenient, honly⟩ := hnarrows.1 hending
    exact ⟨⟨hlenient, hrest⟩, honly⟩
  · rintro ⟨⟨hlenient, hrest⟩, honly⟩
    have hending := hnarrows.2 ⟨hlenient, honly⟩
    exact (Outline.link_unasked (Outline.asks_strict hasks hending)).2 ⟨hending, hrest⟩

end

def emptyCase : Template where
  source := "\x7b\x7b^a\x7d\x7d\x7b\x7bh b\x7d\x7d\x7b\x7b/a\x7d\x7d"
  items := [
    .block
      { call := ⟨"a", .negated ⟨false, 0, ["a"]⟩ none, [], []⟩
        body := [
          .escaped (.call ⟨"h", .helper (.custom 0), [.reference ⟨false, 0, ["b"]⟩ true], []⟩)]
        inverse := []
        chained := false }]
  links := ⟨[]⟩

theorem ofSource_emptyCase :
    Outline.ofSource (Dialect.lenient { helpers := ⟨[("h", .custom 0)]⟩ }) emptyCase.source =
      .finished emptyCase.items := by cbv

theorem helpersOnly_emptyCase : ∀ item ∈ emptyCase.items, item.HelpersOnly := by
  refine List.forall_mem_singleton.2 (.block ⟨⟨?_, ?_⟩, .inr ⟨_, _, rfl⟩⟩ ?_ ?_)
  · exact List.forall_mem_nil _
  · exact List.forall_mem_nil _
  · exact List.forall_mem_singleton.2 (.escaped (.call ⟨_, rfl⟩
      (List.forall_mem_singleton.2 (.reference _ _)) (List.forall_mem_nil _)))
  · exact List.forall_mem_nil _

/-- The head of the section is no helper, and need not be one. -/
theorem compile_strict_emptyCase :
    let d : Dialect := { helpers := ⟨[("h", .custom 0)]⟩ }
    let shelf : Shelf := { library := {}, compiled := ⟨[]⟩ }
    (Outline.ofSource d.lenient emptyCase.source).asks = [] ∧
      compile d.strict ⟨[]⟩ emptyCase.source shelf = (.ok emptyCase, shelf) := by
  intro d shelf
  have hasks : (Outline.ofSource d.lenient emptyCase.source).asks = [] := by
    rw [ofSource_emptyCase]
    rfl
  refine ⟨hasks, (compile_strict_iff d ⟨[]⟩ _ hasks shelf shelf _).2 ⟨?_, helpersOnly_emptyCase⟩⟩
  unfold compile
  rw [ofSource_emptyCase]
  rfl

end Stencil
