import Stencil.Proofs.Likeness
import Stencil.Proofs.Resemblance

set_option autoImplicit false

/-!
# Renderings that are indifferent to functions

A template that calls built-in helpers only does the same for contexts that resemble each other,
whatever the host does, unless it calls a function that it finds there. Its text keeps clear of what
is unclean, if only clean text gets into it unescaped.
-/
namespace Stencil

namespace Render
variable {σ τ α β γ δ : Type}

/-- Two computations that do not touch the state, report the same events and end alike: with related
results or with the same error. -/
inductive Agree (deep : Prop) (R : α → β → Prop) (x : Render σ α) (y : Render τ β) : Prop
  | tooDeep (h : deep) (hx : ∀ state, x.EndsIn state none) (hy : ∀ state, y.EndsIn state none)
  | error {e : TemplateError} {events : List Event}
    (hx : ∀ state, x.EndsIn state (some (.error e, state, events)))
    (hy : ∀ state, y.EndsIn state (some (.error e, state, events)))
  | ok {a : α} {b : β} {events : List Event} (h : R a b)
    (hx : ∀ state, x.EndsIn state (some (.ok a, state, events)))
    (hy : ∀ state, y.EndsIn state (some (.ok b, state, events)))

namespace Agree
variable {deep : Prop} {R : α → β → Prop} {S : γ → δ → Prop} {x : Render σ α} {y : Render τ β}

theorem pure {a : α} {b : β} (h : R a b) :
    (pure a : Render σ α).Agree deep R (Pure.pure b : Render τ β) :=
  .ok h (fun _ => .of_quiet fun _ => rfl) fun _ => .of_quiet fun _ => rfl

theorem throw (e : TemplateError) :
    (throw e : Render σ α).Agree deep R (MonadExcept.throw e : Render τ β) :=
  .error (fun _ => .of_quiet fun _ => rfl) fun _ => .of_quiet fun _ => rfl

theorem report (e : Event) :
    (report e : Render σ Unit).Agree deep (fun _ _ => True) (Render.report e : Render τ Unit) :=
  .ok True.intro (fun _ _ => rfl) fun _ _ => rfl

theorem bind (h : x.Agree deep R y) {f : α → Render σ γ} {g : β → Render τ δ}
    (hf : ∀ a b, R a b → (f a).Agree deep S (g b)) : (x >>= f).Agree deep S (y >>= g) := by
  cases h with
  | tooDeep h hx hy =>
    exact .tooDeep h (fun state => (hx state).bind_none f) fun state => (hy state).bind_none g
  | error hx hy =>
    exact .error (fun state => (hx state).bind_error f) fun state => (hy state).bind_error g
  | ok h hx hy =>
    cases hf _ _ h with
    | tooDeep h hfx hgy =>
      exact .tooDeep h (fun state => (hx state).bind_ok (hfx state))
        fun state => (hy state).bind_ok (hgy state)
    | error hfx hgy =>
      exact .error (fun state => (hx state).bind_ok (hfx state))
        fun state => (hy state).bind_ok (hgy state)
    | ok h hfx hgy =>
      exact .ok h (fun state => (hx state).bind_ok (hfx state))
        fun state => (hy state).bind_ok (hgy state)

/-- A computation whose errors are looked at, and passed on. -/
theorem bind_outcome (h : x.Agree deep R y) {f : Except TemplateError α → Render σ γ}
    {g : Except TemplateError β → Render τ δ} (hok : ∀ a b, R a b → (f (.ok a)).Agree deep S (g (.ok b)))
    (herror : ∀ e, (f (.error e)).Agree deep S (g (.error e))) :
    (x.outcome >>= f).Agree deep S (y.outcome >>= g) := by
  have hbind {r : Except TemplateError α} {r' : Except TemplateError β} {events : List Event}
      (hx : ∀ state, x.EndsIn state (some (r, state, events)))
      (hy : ∀ state, y.EndsIn state (some (r', state, events)))
      (hf : (f r).Agree deep S (g r')) : (x.outcome >>= f).Agree deep S (y.outcome >>= g) :=
    bind (R := fun a b => a = r ∧ b = r')
      (.ok ⟨rfl, rfl⟩ (fun state => (hx state).outcome) fun state => (hy state).outcome)
      (by rintro _ _ ⟨rfl, rfl⟩; exact hf)
  cases h with
  | tooDeep h hx hy =>
    exact .tooDeep h (fun state => (hx state).outcome.bind_none f)
      fun state => (hy state).outcome.bind_none g
  | error hx hy => exact hbind hx hy (herror _)
  | ok h hx hy => exact hbind hx hy (hok _ _ h)

theorem imp (h : x.Agree deep R y) {R' : α → β → Prop} (himp : ∀ a b, R a b → R' a b) :
    x.Agree deep R' y := by
  cases h with
  | tooDeep h hx hy => exact .tooDeep h hx hy
  | error hx hy => exact .error hx hy
  | ok h hx hy => exact .ok (himp _ _ h) hx hy

end Agree
end Render

/-- Texts that may get into the output: those with nothing in them, those that are escaped, and
what consists of others. -/
structure Cleanly (safe : Prop) (clean : String → Prop) : Prop where
  empty : clean ""
  append : ∀ {a b}, clean a → clean b → clean (a ++ b)
  escaped : ∀ text, clean (Html.escape text)
  safe : safe → ∀ text, clean text

section
variable {functions safe deep : Prop} {clean : String → Prop} {σ τ : Type}

def SameText (clean : String → Prop) (s s' : String) : Prop := s = s' ∧ clean s

theorem Cleanly.value_escaped (h : Cleanly safe clean) {v w : Value}
    (hv : v.Resembles functions safe w) : SameText clean v.escaped w.escaped := by
  refine ⟨hv.escaped, ?_⟩
  cases hv with
  | safe hsafe text => exact h.safe hsafe text
  | _ => exact h.escaped _

structure Invocation.Resembles (functions safe : Prop) (i i' : Invocation) : Prop where
  this : i.this.Resembles functions safe i'.this
  args : List.Forall₂ (Value.Resembles functions safe) i.args i'.args
  name : i.name = i'.name
  data : i.data.Resembles functions safe i'.data

/-- The value that a helper ends with: its text is clean, unless it was looked up. -/
def Builtin.Yields (functions safe : Prop) (clean : String → Prop) (b : Builtin) (v w : Value) : Prop :=
  v.Resembles functions safe w ∧ (b ≠ .lookup → clean v.text)

section
variable {render : Branch → Value → Option Object → Render σ String}
  {render' : Branch → Value → Option Object → Render τ String}
  {call : Helper → Value → List Value → Render σ Value}
  {call' : Helper → Value → List Value → Render τ Value} {i i' : Invocation} {b : Builtin}

def Bodies (functions safe deep : Prop) (clean : String → Prop)
    (render : Branch → Value → Option Object → Render σ String)
    (render' : Branch → Value → Option Object → Render τ String) : Prop :=
  ∀ branch context context' data data', context.Resembles functions safe context' →
    Option.Rel (Dict.Resembles functions safe) data data' →
      (render branch context data).Agree deep (SameText clean) (render' branch context' data')

def ActsAlike (functions safe deep : Prop) (clean : String → Prop) (b : Builtin)
    (render : Branch → Value → Option Object → Render σ String)
    (render' : Branch → Value → Option Object → Render τ String)
    (call : Helper → Value → List Value → Render σ Value)
    (call' : Helper → Value → List Value → Render τ Value) (a : Action σ) (a' : Action τ) : Prop :=
  (a.run render call).Agree deep (b.Yields functions safe clean) (a'.run render' call')

theorem yields_string {text text' : String} (h : SameText clean text text') :
    b.Yields functions safe clean (.string text) (.string text') := by
  obtain ⟨rfl, hclean⟩ := h
  exact ⟨.string text, fun _ => hclean⟩

section
variable (hbodies : Bodies functions safe deep clean render render')
include hbodies

theorem body_acts {context context' : Value} (branch : Branch)
    (hcontext : context.Resembles functions safe context') :
    ActsAlike functions safe deep clean b render render' call call' (.body branch context)
      (.body branch context') := by
  refine (hbodies branch _ _ none none hcontext .none).bind_outcome (fun text text' h => ?_) fun e => ?_
  · exact .pure (yields_string h)
  · exact .throw e

theorem bodies_act (hclean : Cleanly safe clean) {rounds rounds' : List (Value × Object)}
    (hrounds : List.Forall₂ (Builtin.RoundRel functions safe) rounds rounds') {text : String}
    (htext : clean text) :
    ActsAlike functions safe deep clean b render render' call call'
      (.bodies text (fun text => .done (.string text)) rounds)
      (.bodies text (fun text => .done (.string text)) rounds') := by
  induction hrounds generalizing text with
  | nil => exact .pure (yields_string ⟨rfl, htext⟩)
  | cons hround _ ih =>
    obtain ⟨hcontext, hdata⟩ := hround
    refine (hbodies .main _ _ (some _) (some _) hcontext (.some hdata)).bind_outcome
      (fun more more' h => ?_) fun e => ?_
    · obtain ⟨rfl, hmore⟩ := h
      exact ih (hclean.append htext hmore)
    · exact .throw e

end

namespace Builtin
variable {v w : Value}

section
variable (hbodies : Bodies functions safe deep clean render render')
  (hi : i.Resembles functions safe i')
include hbodies hi

theorem choose_acts {full full' : Value} (hv : v.Resembles functions safe w)
    (hfull : full.Resembles functions safe full') :
    ActsAlike functions safe deep clean b render render' call call' (choose i v full)
      (choose i' w full') := by
  unfold choose
  rw [hv.isEmpty]
  split
  · exact body_acts hbodies .inverse hi.this
  · exact body_acts hbodies .main hfull

theorem eachAction_acts (hclean : Cleanly safe clean) (hv : v.Resembles functions safe w) :
    ActsAlike functions safe deep clean b render render' call call' (eachAction i v)
      (eachAction i' w) := by
  have hrounds := rounds_resemble hi.data hv
  unfold eachAction
  generalize rounds i.data v = rounds, rounds i'.data w = rounds' at hrounds
  cases hrounds with
  | nil => exact body_acts hbodies .inverse hi.this
  | cons hround hrest => exact bodies_act hbodies hclean (.cons hround hrest) hclean.empty

theorem sectionAction_acts (hclean : Cleanly safe clean) (hv : v.Resembles functions safe w) :
    ActsAlike functions safe deep clean b render render' call call' (sectionAction i v)
      (sectionAction i' w) := by
  unfold sectionAction
  rw [hv.isEmpty, hv.isArray, hv.isObject]
  split
  · exact body_acts hbodies .inverse hi.this
  split
  · exact eachAction_acts hbodies hi hclean hv
  split
  · exact body_acts hbodies .main hv
  · exact body_acts hbodies .main hi.this

/-- Built-in helpers do not tell apart what resembles each other. -/
theorem act_acts (hclean : Cleanly safe clean) (b : Builtin) :
    ActsAlike functions safe deep clean b render render' call call' (b.act i) (b.act i') := by
  obtain ⟨this, args, name, hash, data, isBlock⟩ := i
  obtain ⟨this', args', _, hash', data', isBlock'⟩ := i'
  obtain ⟨hthis, hargs, rfl, hdata⟩ := id hi
  have hcount (arity : Nat) : ActsAlike functions safe deep clean b render render' call call'
      (.fail (.wrongArgumentCount name args.length arity))
      (.fail (.wrongArgumentCount name args'.length arity)) := by
    rw [show args.length = args'.length from hargs.length_eq]
    exact .throw _
  change List.Forall₂ (Value.Resembles functions safe) args args' at hargs
  cases b with
  | callMissing => exact .throw _
  | noop =>
    cases hargs with
    | nil => exact body_acts hbodies .main hthis
    | cons => exact hcount 0
  | lookup =>
    match hargs with
    | .nil | .cons _ .nil | .cons _ (.cons _ (.cons _ _)) => exact hcount 2
    | .cons (a := v) (b := w) hv (.cons (a := key) (b := key') hkey .nil) =>
      refine .pure ⟨?_, fun hne => absurd rfl hne⟩
      rw [hv.isTruthy, hkey.text]
      split
      · exact hv.get _
      · exact .null
  | withBlock =>
    match hargs with
    | .nil | .cons _ (.cons _ _) => exact hcount 1
    | .cons hv .nil => exact choose_acts hbodies hi hv hv
  | ifBlock =>
    match hargs with
    | .nil | .cons _ (.cons _ _) => exact hcount 1
    | .cons hv .nil => exact choose_acts hbodies hi hv hthis
  | unlessBlock =>
    match hargs with
    | .nil | .cons _ (.cons _ _) => exact hcount 1
    | .cons (a := v) (b := w) hv .nil =>
      unfold act
      dsimp only
      rw [hv.isEmpty]
      split
      · exact body_acts hbodies .main hthis
      · exact body_acts hbodies .inverse hthis
  | eachBlock =>
    match hargs with
    | .nil | .cons _ (.cons _ _) => exact hcount 1
    | .cons hv .nil => exact eachAction_acts hbodies hi hclean hv
  | log =>
    match hargs with
    | .nil | .cons _ (.cons _ _) => exact hcount 1
    | .cons (a := v) (b := w) hv .nil =>
      unfold act
      dsimp only
      rw [hv.text, hv.inspect]
      exact (Render.Agree.report _).bind fun _ _ _ => .pure (yields_string ⟨rfl, hclean.empty⟩)
  | blockMissing =>
    match hargs with
    | .nil | .cons _ (.cons _ _) => exact hcount 1
    | .cons hv .nil => exact sectionAction_acts hbodies hi hclean hv

end
end Builtin
end

def Head.helpers : Head → List Helper
  | .helper h => [h]
  | .value _ fallback | .negated _ fallback => fallback.toList

structure Head.Fits (functions : Prop) (allowed : Builtin → Prop) (head : Head) : Prop where
  helpers : ∀ h ∈ head.helpers, ∃ b, h = .builtin b ∧ allowed b
  value : head.IsValue → ¬ functions

inductive Expr.Fits (functions : Prop) : Expr → Prop
  | const {v : Value} (h : v.IsConstant) : Expr.Fits functions (.const v)
  | reference {r : Reference} {invoke : Bool} (h : invoke = true → ¬ functions) :
    Expr.Fits functions (.reference r invoke)
  | call {call : Call Expr} (head : call.head.Fits functions fun _ => True)
    (args : ∀ e ∈ call.args, Expr.Fits functions e)
    (hash : ∀ entry ∈ call.hash, Expr.Fits functions entry.2) : Expr.Fits functions (.call call)

/-- An item that calls built-in helpers, and puts no text into the output unescaped that may be
unclean. -/
inductive Item.Fits (functions : Prop) (clean : String → Prop) : Item → Prop
  | text {text : String} (h : clean text) : Item.Fits functions clean (.text text)
  | escaped {e : Expr} (h : e.Fits functions) : Item.Fits functions clean (.escaped e)
  | unescaped {e : Expr} (h : e.Fits functions) (hclean : ∀ text, clean text) :
    Item.Fits functions clean (.unescaped e)
  | block {b : Block Item}
    (head : b.call.head.Fits functions fun b => b = .lookup → ∀ text, clean text)
    (args : ∀ e ∈ b.call.args, e.Fits functions)
    (hash : ∀ entry ∈ b.call.hash, entry.2.Fits functions)
    (body : ∀ item ∈ b.body, Item.Fits functions clean item)
    (inverse : ∀ item ∈ b.inverse, Item.Fits functions clean item) :
    Item.Fits functions clean (.block b)
  | inclusion {i : Inclusion} (args : ∀ e ∈ i.args, e.Fits functions)
    (hash : ∀ entry ∈ i.hash, entry.2.Fits functions) : Item.Fits functions clean (.inclusion i)

/-- Two renderers that include the same templates, for which their further renderings agree. -/
structure Renderer.Agrees (functions safe deep : Prop) (clean : String → Prop)
    (included : Template → Prop) (r : Renderer σ) (r' : Renderer τ) : Prop where
  partials : r.partial? = r'.partial?
  nested : ∀ t, included t → ∀ {f f' : Frame} {this this' : Value},
    f.Resembles functions safe f' → f.links = t.links → this.Resembles functions safe this' →
      (r.nested f this t.items).Agree deep (SameText clean) (r'.nested f' this' t.items)

namespace Renderer
variable {included : Template → Prop} {r : Renderer σ} {r' : Renderer τ} {f f' : Frame}
  {this this' : Value}

theorem refer_agrees (hf : f.Resembles functions safe f')
    (hthis : this.Resembles functions safe this') (ref : Reference) {invoke : Bool}
    (hinvoke : invoke = true → ¬ functions) :
    (r.refer f this ref invoke).Agree deep (Value.Resembles functions safe)
      (r'.refer f' this' ref invoke) := by
  unfold refer
  obtain ⟨howner, hv⟩ := hf.find hthis ref
  generalize f.find this ref = found, f'.find this' ref = found' at howner hv
  obtain ⟨owner, v⟩ := found
  obtain ⟨owner', v'⟩ := found'
  cases ref.data || ref.names.isEmpty with
  | true => exact .pure hv
  | false =>
    cases hv with
    | undefined => exact (Render.Agree.report _).bind fun _ _ _ => .pure .undefined
    | function h g g' =>
      have hquiet : ¬ invoke = true := fun htrue => hinvoke htrue h
      dsimp only
      rw [if_neg hquiet, if_neg hquiet]
      exact .pure (.function h g g')
    | null => exact .pure .null
    | bool b => exact .pure (.bool b)
    | number x => exact .pure (.number x)
    | string text => exact .pure (.string text)
    | safe h text => exact .pure (.safe h text)
    | array h => exact .pure (.array h)
    | object h => exact .pure (.object h)

def SameCallee (functions safe : Prop) (allowed : Builtin → Prop) (p p' : Helper × List Value) : Prop :=
  (∃ b, p.1 = .builtin b ∧ p'.1 = .builtin b ∧ allowed b) ∧
    List.Forall₂ (Value.Resembles functions safe) p.2 p'.2

theorem fallBack_agrees {allowed : Builtin → Prop} (name : String) {fallback : Option Helper}
    (hfallback : ∀ h ∈ fallback.toList, ∃ b, h = .builtin b ∧ allowed b) {v v' : Value}
    (hv : v.Resembles functions safe v') :
    (fallBack name fallback v : Render σ _).Agree deep (SameCallee functions safe allowed)
      (fallBack name fallback v' : Render τ _) := by
  cases fallback with
  | none => exact .throw _
  | some h =>
    obtain ⟨b, rfl, hb⟩ := hfallback h List.mem_cons_self
    exact .pure ⟨⟨b, rfl, rfl, hb⟩, .cons hv .nil⟩

theorem callee_agrees (hf : f.Resembles functions safe f')
    (hthis : this.Resembles functions safe this') {allowed : Builtin → Prop} (name : String)
    {head : Head} (hhead : head.Fits functions allowed) :
    (r.callee f this name head).Agree deep (SameCallee functions safe allowed)
      (r'.callee f' this' name head) := by
  have hquiet : false = true → ¬ functions := nofun
  cases head with
  | helper h =>
    obtain ⟨b, rfl, hb⟩ := hhead.helpers h List.mem_cons_self
    exact .pure ⟨⟨b, rfl, rfl, hb⟩, .nil⟩
  | value ref fallback =>
    refine (refer_agrees hf hthis ref hquiet).bind fun v v' hv => ?_
    have hfallBack : (fallBack name fallback v : Render σ _).Agree deep
        (SameCallee functions safe allowed) (fallBack name fallback v' : Render τ _) :=
      fallBack_agrees name hhead.helpers hv
    cases hv with
    | function h => exact absurd h (hhead.value True.intro)
    | _ => exact hfallBack
  | negated ref fallback =>
    refine (refer_agrees hf hthis ref hquiet).bind fun v v' hv => ?_
    rw [hv.isEmpty]
    exact fallBack_agrees name hhead.helpers (.bool _)

theorem invoke_agrees (hclean : Cleanly safe clean) (hf : f.Resembles functions safe f')
    {render : Branch → Value → Option Object → Render σ String}
    {render' : Branch → Value → Option Object → Render τ String}
    (hbodies : Bodies functions safe deep clean render render')
    (hthis : this.Resembles functions safe this') (b : Builtin) {args args' : List Value}
    (hargs : List.Forall₂ (Value.Resembles functions safe) args args') :
    (r.invoke f render (.builtin b) this args).Agree deep (b.Yields functions safe clean)
      (r'.invoke f' render' (.builtin b) this' args') :=
  Builtin.act_acts hbodies ⟨hthis, hargs, hf.name, hf.level.data⟩ hclean b

mutual

theorem eval_agrees (hclean : Cleanly safe clean) (hf : f.Resembles functions safe f')
    (hthis : this.Resembles functions safe this') : (e : Expr) → e.Fits functions →
      (r.eval f this e).Agree deep (Value.Resembles functions safe) (r'.eval f' this' e)
  | .const v, he => by
    cases he with
    | const h =>
      rw [eval, eval]
      exact .pure (.of_isConstant h)
  | .reference ref invoke, he => by
    cases he with
    | reference h =>
      rw [eval, eval]
      exact refer_agrees hf hthis ref h
  | .call ⟨name, head, args, hash⟩, he => by
    cases he with
    | call hhead hargs hhash =>
      rw [eval, eval]
      refine (callee_agrees hf hthis name hhead).bind fun callee callee' hcallee => ?_
      obtain ⟨h, first⟩ := callee
      obtain ⟨h', first'⟩ := callee'
      obtain ⟨⟨b, rfl, rfl, -⟩, hfirst⟩ := hcallee
      refine (evalArgs_agrees hclean hf hthis args hargs).bind fun vs vs' hvs => ?_
      refine (evalHash_agrees hclean hf hthis hash hhash).bind fun hash hash' hhash => ?_
      have hempty : Bodies functions safe deep clean (σ := σ) (τ := τ) (fun _ _ _ => pure "")
          (fun _ _ _ => pure "") := fun _ _ _ _ _ _ _ => .pure ⟨rfl, hclean.empty⟩
      exact (invoke_agrees hclean (hf.enter hthis name (.ofList hhash) none false) hempty hthis b
        (List.rel_append hfirst hvs)).imp fun _ _ h => h.1

theorem evalArgs_agrees (hclean : Cleanly safe clean) (hf : f.Resembles functions safe f')
    (hthis : this.Resembles functions safe this') : (args : List Expr) →
      (∀ e ∈ args, e.Fits functions) →
        (r.evalArgs f this args).Agree deep (List.Forall₂ (Value.Resembles functions safe))
          (r'.evalArgs f' this' args)
  | [], _ => by
    rw [evalArgs, evalArgs]
    exact .pure .nil
  | e :: rest, h => by
    rw [evalArgs, evalArgs]
    obtain ⟨he, hrest⟩ := List.forall_mem_cons.1 h
    refine (eval_agrees hclean hf hthis e he).bind fun v v' hv => ?_
    exact (evalArgs_agrees hclean hf hthis rest hrest).bind fun vs vs' hvs => .pure (.cons hv hvs)

theorem evalHash_agrees (hclean : Cleanly safe clean) (hf : f.Resembles functions safe f')
    (hthis : this.Resembles functions safe this') : (hash : List (String × Expr)) →
      (∀ entry ∈ hash, entry.2.Fits functions) →
        (r.evalHash f this hash).Agree deep
          (List.Forall₂ (EntryRel (Value.Resembles functions safe))) (r'.evalHash f' this' hash)
  | [], _ => by
    rw [evalHash, evalHash]
    exact .pure .nil
  | (key, e) :: rest, h => by
    rw [evalHash, evalHash]
    obtain ⟨he, hrest⟩ := List.forall_mem_cons.1 h
    refine (eval_agrees hclean hf hthis e he).bind fun v v' hv => ?_
    exact (evalHash_agrees hclean hf hthis rest hrest).bind fun vs vs' hvs =>
      .pure (.cons (.mk key hv) hvs)

end

theorem inclusionContext_agrees (hclean : Cleanly safe clean) (hf : f.Resembles functions safe f')
    (hthis : this.Resembles functions safe this') {i : Inclusion}
    (hargs : ∀ e ∈ i.args, e.Fits functions) (hhash : ∀ entry ∈ i.hash, entry.2.Fits functions) :
    (r.inclusionContext f this i).Agree deep (Value.Resembles functions safe)
      (r'.inclusionContext f' this' i) := by
  obtain ⟨name, args, named⟩ := i
  have hwritten {fields fields' : Object} (hfields : fields.Resembles functions safe fields') :
      (do let hash ← r.evalHash f this named
          return Value.object (fields.extend hash)).Agree deep (Value.Resembles functions safe)
        (do let hash ← r'.evalHash f' this' named
            return Value.object (fields'.extend hash)) :=
    (evalHash_agrees hclean hf hthis named hhash).bind fun _ _ h => .pure (.object (hfields.extend h))
  unfold inclusionContext
  cases args with
  | nil =>
    refine (Render.Agree.pure hthis).bind fun v v' hv => ?_
    split
    · exact .pure hv
    · cases hv with
      | object h => exact hwritten h
      | _ => exact hwritten .nil
  | cons e rest =>
    refine (eval_agrees hclean hf hthis e (hargs e List.mem_cons_self)).bind fun v v' hv => ?_
    split
    · exact .pure hv
    · cases hv with
      | object h => exact hwritten h
      | _ => exact hwritten .nil

theorem renderInclusion_agrees (hclean : Cleanly safe clean)
    (hr : r.Agrees functions safe deep clean included r') (hf : f.Resembles functions safe f')
    (hthis : this.Resembles functions safe this') {i : Inclusion}
    (hargs : ∀ e ∈ i.args, e.Fits functions) (hhash : ∀ entry ∈ i.hash, entry.2.Fits functions)
    (hname : ∀ t, r.partial? f.links i.name = some t → included t) :
    (r.renderInclusion f this i).Agree deep (SameText clean) (r'.renderInclusion f' this' i) := by
  unfold renderInclusion
  rw [← hf.links, ← hr.partials]
  split
  · exact .throw _
  · next t ht =>
    refine (inclusionContext_agrees hclean hf hthis hargs hhash).bind fun v v' hv => ?_
    exact hr.nested t (hname t ht) (hf.included hv t.links) rfl hv

mutual

theorem renderItem_agrees (hclean : Cleanly safe clean)
    (hr : r.Agrees functions safe deep clean included r') (f f' : Frame)
    (hf : f.Resembles functions safe f') (this this' : Value)
    (hthis : this.Resembles functions safe this') : (item : Item) → item.Fits functions clean →
      (∀ name ∈ item.includes, ∀ t, r.partial? f.links name = some t → included t) →
        (r.renderItem f this item).Agree deep (SameText clean) (r'.renderItem f' this' item)
  | .text text, hitem, _ => by
    cases hitem with
    | text h =>
      rw [renderItem, renderItem]
      exact .pure ⟨rfl, h⟩
  | .escaped e, hitem, _ => by
    cases hitem with
    | escaped he =>
      rw [renderItem, renderItem]
      exact (eval_agrees hclean hf hthis e he).bind fun _ _ hv => .pure (hclean.value_escaped hv)
  | .unescaped e, hitem, _ => by
    cases hitem with
    | unescaped he hall =>
      rw [renderItem, renderItem]
      exact (eval_agrees hclean hf hthis e he).bind fun _ _ hv => .pure ⟨hv.text, hall _⟩
  | .block ⟨call, body, inverse, chained⟩, hitem, hnames => by
    cases hitem with
    | block hhead hargs hhash hbody hinverse =>
      rw [renderItem, renderItem]
      rw [Item.includes] at hnames
      refine (callee_agrees hf hthis call.name hhead).bind fun callee callee' hcallee => ?_
      obtain ⟨h, first⟩ := callee
      obtain ⟨h', first'⟩ := callee'
      obtain ⟨⟨b, rfl, rfl, hb⟩, hfirst⟩ := hcallee
      refine (evalArgs_agrees hclean hf hthis call.args hargs).bind fun vs vs' hvs => ?_
      refine (evalHash_agrees hclean hf hthis call.hash hhash).bind fun hash hash' hhash => ?_
      have hinner := hf.enter hthis call.name (.ofList hhash) (some (body, inverse)) chained
      refine (invoke_agrees hclean hinner ?_ hthis b (List.rel_append hfirst hvs)).bind
        fun v v' hv => .pure ⟨hv.1.text, ?_⟩
      · intro branch context context' data data' hcontext hdata
        cases branch with
        | main =>
          exact render_agrees hclean hr _ _ (hinner.withData hdata) context context' hcontext body
            hbody fun name hname => hnames name (List.mem_append_left _ hname)
        | inverse =>
          exact render_agrees hclean hr _ _ (hinner.withData hdata) context context' hcontext inverse
            hinverse fun name hname => hnames name (List.mem_append_right _ hname)
      · by_cases hlookup : b = .lookup
        · exact hb hlookup _
        · exact hv.2 hlookup
  | .inclusion i, hitem, hnames => by
    cases hitem with
    | inclusion hargs hhash =>
      rw [renderItem, renderItem]
      exact renderInclusion_agrees hclean hr hf hthis hargs hhash (hnames i.name List.mem_cons_self)

/-- Items that fit render to the same clean text for contexts that resemble each other. -/
theorem render_agrees (hclean : Cleanly safe clean)
    (hr : r.Agrees functions safe deep clean included r') (f f' : Frame)
    (hf : f.Resembles functions safe f') (this this' : Value)
    (hthis : this.Resembles functions safe this') : (items : List Item) →
      (∀ item ∈ items, item.Fits functions clean) →
        (∀ name ∈ includes items, ∀ t, r.partial? f.links name = some t → included t) →
          (r.render f this items).Agree deep (SameText clean) (r'.render f' this' items)
  | [], _, _ => by
    rw [render, render]
    exact .pure ⟨rfl, hclean.empty⟩
  | item :: items, hitems, hnames => by
    rw [render, render]
    rw [includes] at hnames
    obtain ⟨hitem, hrest⟩ := List.forall_mem_cons.1 hitems
    refine (renderItem_agrees hclean hr f f' hf this this' hthis item hitem
      fun name hname => hnames name (List.mem_append_left _ hname)).bind fun text text' htext => ?_
    refine (render_agrees hclean hr f f' hf this this' hthis items hrest
      fun name hname => hnames name (List.mem_append_right _ hname)).bind fun rest rest' hmore => ?_
    obtain ⟨rfl, htext⟩ := htext
    obtain ⟨rfl, hmore⟩ := hmore
    exact .pure ⟨rfl, hclean.append htext hmore⟩

end

end Renderer

variable {partial? : Dict Target → String → Option Template} {included : Template → Prop}

/-- However deep inclusions nest. -/
theorem renderer_agrees (hclean : Cleanly safe clean)
    (hincluded : ∀ t, included t → (∀ item ∈ t.items, item.Fits functions clean) ∧
      ∀ name ∈ includes t.items, ∀ u, partial? t.links name = some u → included u)
    (host : Host σ) (host' : Host τ) (depth : Nat) :
    (renderer host partial? depth).Agrees functions safe True clean included
      (renderer host' partial? depth) := by
  induction depth with
  | zero =>
    exact ⟨rfl, fun _ _ _ _ _ _ _ _ _ => .tooDeep True.intro (fun _ _ => rfl) fun _ _ => rfl⟩
  | succ depth ih =>
    refine ⟨rfl, fun t ht f f' this this' hf hlinks hthis => ?_⟩
    obtain ⟨hitems, hnames⟩ := hincluded t ht
    refine Renderer.render_agrees hclean ih f f' hf this this' hthis t.items hitems ?_
    intro name hname u hu
    refine hnames name hname u ?_
    rw [← hlinks, ← hu]
    cases depth <;> rfl

theorem Template.render_agrees (hclean : Cleanly safe clean)
    (hincluded : ∀ t, included t → (∀ item ∈ t.items, item.Fits functions clean) ∧
      ∀ name ∈ includes t.items, ∀ u, partial? t.links name = some u → included u)
    {t : Template} (ht : included t) (host : Host σ) (host' : Host τ) (depth : Nat)
    {context context' : Value} (hcontext : context.Resembles functions safe context')
    {seed seed' : Object} (hseed : seed.Resembles functions safe seed') :
    (t.render host partial? depth context seed).Agree True (SameText clean)
      (t.render host' partial? depth context' seed') :=
  (renderer_agrees hclean hincluded host host' (depth + 1)).nested t ht
    (.root hcontext hseed t.links) rfl hcontext

theorem Template.render_agrees_flat (hclean : Cleanly safe clean) {t : Template}
    (hitems : ∀ item ∈ t.items, item.Fits functions clean) (hflat : includes t.items = [])
    (host : Host σ) (host' : Host τ) (depth depth' : Nat) {context context' : Value}
    (hcontext : context.Resembles functions safe context') {seed seed' : Object}
    (hseed : seed.Resembles functions safe seed') :
    (t.render host partial? depth context seed).Agree False (SameText clean)
      (t.render host' partial? depth' context' seed') := by
  have hrenderers : (renderer host partial? depth).Agrees functions safe False clean
      (fun _ => False) (renderer host' partial? depth') := by
    refine ⟨?_, fun _ => False.elim⟩
    cases depth <;> cases depth' <;> rfl
  refine Renderer.render_agrees hclean hrenderers _ _ (.root hcontext hseed t.links) context context'
    hcontext t.items hitems ?_
  rw [hflat]
  exact nofun

end

theorem Builtin.of_registered {name : String} {h : Helper}
    (hname : Builtin.registry.get? name = some h) : ∃ b, h = .builtin b := by
  obtain ⟨entry, hentry, rfl⟩ := List.mem_map.1 (Dict.mem_values_of_get? hname)
  obtain ⟨⟨_, b⟩, -, rfl⟩ := List.mem_map.1 hentry
  exact ⟨b, rfl⟩

namespace Dialect.BuiltinsOnly
variable {d : Dialect} {h : Helper}

theorem callFallback (hd : d.BuiltinsOnly) (heq : d.callFallback = some h) :
    h = .builtin .callMissing := by
  have hname : Builtin.registry.get? "helperMissing" = some (.builtin .callMissing) := by decide
  exact Option.some.inj ((hd _ _ heq).symm.trans hname)

theorem blockFallback (hd : d.BuiltinsOnly) (heq : d.blockFallback = some h) :
    h = .builtin .blockMissing := by
  have hname : Builtin.registry.get? "blockHelperMissing" = some (.builtin .blockMissing) := by
    decide
  exact Option.some.inj ((hd _ _ heq).symm.trans hname)

end Dialect.BuiltinsOnly

section
variable {functions : Prop} {d : Dialect}

theorem Head.From.fits {allowed : Builtin → Prop} {fallback : Option Helper} {head : Head}
    (h : head.From d fallback) (hd : d.BuiltinsOnly)
    (hfallback : ∀ h, fallback = some h → ∃ b, h = .builtin b ∧ allowed b)
    (hallowed : ∀ b, head = .helper (.builtin b) → allowed b) (hvalue : head.IsValue → ¬ functions) :
    head.Fits functions allowed := by
  refine ⟨fun g hg => ?_, hvalue⟩
  cases h with
  | helper hname =>
    cases List.mem_singleton.1 hg
    obtain ⟨b, rfl⟩ := Builtin.of_registered (hd _ _ hname)
    exact ⟨b, rfl, hallowed b rfl⟩
  | value r => exact hfallback g (Option.mem_toList.1 hg)
  | negated r => exact hfallback g (Option.mem_toList.1 hg)

/-- Expressions call built-in helpers; and where functions are no values, nothing else. -/
theorem Expr.From.fits {e : Expr} (h : e.From d) (hd : d.BuiltinsOnly)
    (hoff : functions → d.knownHelpersOnly = true ∧ d.noFunctionValues = true) :
    e.Fits functions := by
  induction h with
  | const h => exact .const h
  | reference r =>
    refine .reference fun hinvoke hfunctions => ?_
    rw [(hoff hfunctions).2] at hinvoke
    cases hinvoke
  | call hhead hknown hargs hhash ihargs ihhash =>
    refine .call (hhead.fits hd (fun h heq => ?_) (fun _ _ => True.intro) fun hvalue hfunctions => ?_)
      ihargs ihhash
    · exact ⟨_, hd.callFallback heq, True.intro⟩
    · exact hknown (hoff hfunctions).1 hvalue

theorem Call.From.head_fits {clean : String → Prop} {call : Call Expr}
    (h : call.From d d.blockFallback) (hknown : call.Known d) (hd : d.BuiltinsOnly)
    (hoff : functions → d.knownHelpersOnly = true ∧ d.noFunctionValues = true)
    (hlookup : call.head = .helper (.builtin .lookup) → ∀ text, clean text) :
    call.head.Fits functions fun b => b = .lookup → ∀ text, clean text := by
  refine h.head.fits hd (fun h heq => ?_) (fun b heq hb => ?_) fun hvalue hfunctions => ?_
  · exact ⟨_, hd.blockFallback heq, nofun⟩
  · exact hlookup (hb ▸ heq)
  · exact hknown (hoff hfunctions).1 hvalue

/-- A template with built-in helpers fits if no text is unclean. -/
theorem Item.From.fits_all {item : Item} (h : item.From d) (hd : d.BuiltinsOnly)
    (hoff : functions → d.knownHelpersOnly = true ∧ d.noFunctionValues = true) :
    item.Fits functions fun _ => True := by
  induction h with
  | text text => exact .text True.intro
  | escaped he => exact .escaped (he.fits hd hoff)
  | unescaped he => exact .unescaped (he.fits hd hoff) fun _ => True.intro
  | @block b hcall hknown _ _ ihbody ihinverse =>
    exact .block (hcall.head_fits hknown hd hoff fun _ _ => True.intro)
      (fun e he => (hcall.args e he).fits hd hoff)
      (fun entry hentry => (hcall.hash entry hentry).fits hd hoff) ihbody ihinverse
  | inclusion hargs hhash =>
    exact .inclusion (fun e he => (hargs e he).fits hd hoff)
      fun entry hentry => (hhash entry hentry).fits hd hoff

end

theorem cleanly_true {safe : Prop} : Cleanly safe fun _ => True :=
  ⟨True.intro, fun _ _ => True.intro, fun _ => True.intro, fun _ _ => True.intro⟩

namespace Render
variable {σ τ α : Type}

/-- A computation agrees with what another ends in, whatever its own state. -/
theorem Agree.endsIn {clean : String → Prop} {x : Render σ String} {y : Render τ String}
    (h : x.Agree False (SameText clean) y) {outcome : Except TemplateError String}
    {events : List Event} {other : τ} (hy : y.EndsIn other (some (outcome, other, events))) (state : σ) :
    x.EndsIn state (some (outcome, state, events)) := by
  have hsame {r : Ending τ String} (hr : y.EndsIn other r) : r = some (outcome, other, events) := by
    have heq := (hr []).symm.trans (hy [])
    cases r with
    | none => cases heq
    | some r =>
      obtain ⟨result, state, more⟩ := r
      simpa using heq
  cases h with
  | tooDeep h => exact h.elim
  | error hx hy' =>
    cases hsame (hy' other)
    exact hx state
  | ok h hx hy' =>
    obtain ⟨rfl, -⟩ := h
    cases hsame (hy' other)
    exact hx state

end Render

/-- A template that includes nothing comes to the same for all contexts that resemble one of which it
calls no function, whatever the host and its state. -/
theorem Template.render_steady {functions : Prop} {t : Template}
    (hitems : ∀ item ∈ t.items, item.Fits functions fun _ => True) (hflat : includes t.items = [])
    (partial? : Dict Target → String → Option Template) {context' : Value}
    (hcontext' : context'.Resembles functions True context') {seed' : Object}
    (hseed' : seed'.Resembles functions True seed') :
    ∃ outcome events, ∀ {σ : Type} (host : Host σ) (depth : Nat) {context : Value} {seed : Object},
      context.Resembles functions True context' → seed.Resembles functions True seed' →
        ∀ state, (t.render host partial? depth context seed).EndsIn state
          (some (outcome, state, events)) := by
  let silent : Host Unit := fun _ _ => .done .null
  have hagree {σ : Type} (host : Host σ) (depth : Nat) {context : Value} {seed : Object}
      (hcontext : context.Resembles functions True context')
      (hseed : seed.Resembles functions True seed') :
      (t.render host partial? depth context seed).Agree False (SameText fun _ => True)
        (t.render silent partial? 0 context' seed') :=
    render_agrees_flat cleanly_true hitems hflat host silent depth 0 hcontext hseed
  have hends : ∃ outcome events, (t.render silent partial? 0 context' seed').EndsIn ()
      (some (outcome, (), events)) := by
    have hself := hagree silent 0 hcontext' hseed'
    cases hself with
    | tooDeep h => exact h.elim
    | error hx => exact ⟨_, _, hx ()⟩
    | ok _ hx => exact ⟨_, _, hx ()⟩
  obtain ⟨outcome, events, hends⟩ := hends
  exact ⟨outcome, events, fun host depth _ _ hcontext hseed state =>
    (hagree host depth hcontext hseed).endsIn hends state⟩

end Stencil
