import Mathlib
import Stencil.Proofs.Concatenation

set_option autoImplicit false

/-!
# Saturated templates

A template whose calls have the arguments that their helpers take renders without an error, whatever
it finds in its context, as long as that is no function: what is missing is undefined, and what is
undefined is empty.
-/
namespace Stencil

/-- A call of a built-in helper with as many arguments as that takes. What reports missing helpers
takes no number of them. -/
def Call.Saturated (call : Call Expr) : Prop :=
  ∃ b, call.head = .helper (.builtin b) ∧ b.arity? = some call.args.length

def Call.IsSection (call : Call Expr) : Prop :=
  (∀ h, call.head ≠ .helper h) ∧ call.args = []

inductive Expr.Saturated : Expr → Prop
  | const (v : Value) : Saturated (.const v)
  | reference (r : Reference) (invoke : Bool) : Saturated (.reference r invoke)
  | call {call : Call Expr} (h : call.Saturated) (args : ∀ e ∈ call.args, Saturated e)
    (hash : ∀ entry ∈ call.hash, Saturated entry.2) : Saturated (.call call)

inductive Item.Saturated : Item → Prop
  | text (text : String) : Saturated (.text text)
  | escaped {e : Expr} (h : e.Saturated) : Saturated (.escaped e)
  | unescaped {e : Expr} (h : e.Saturated) : Saturated (.unescaped e)
  | block {b : Block Item} (call : b.call.Saturated ∨ b.call.IsSection)
    (args : ∀ e ∈ b.call.args, e.Saturated) (hash : ∀ entry ∈ b.call.hash, entry.2.Saturated)
    (body : ∀ item ∈ b.body, Saturated item) (inverse : ∀ item ∈ b.inverse, Saturated item) :
    Saturated (.block b)
  | inclusion {i : Inclusion} (args : ∀ e ∈ i.args, e.Saturated)
    (hash : ∀ entry ∈ i.hash, entry.2.Saturated) : Saturated (.inclusion i)

namespace Render
variable {σ α β : Type} {P : α → Prop} {Q : β → Prop}

/-- A computation that does not fail, and that neither looks at the state of the host nor changes
it. -/
def Succeeds (P : α → Prop) (x : Render σ α) : Prop :=
  ∃ a events, P a ∧ ∀ state, x.EndsIn state (some (.ok a, state, events))

namespace Succeeds
variable {x : Render σ α}

theorem pure {a : α} (h : P a) : (pure a : Render σ α).Succeeds P :=
  ⟨a, [], h, fun _ => .of_quiet fun _ => rfl⟩

theorem report (e : Event) : (report e : Render σ Unit).Succeeds fun _ => True :=
  ⟨(), [e], True.intro, fun _ _ => rfl⟩

theorem bind (h : x.Succeeds P) {f : α → Render σ β} (hf : ∀ a, P a → (f a).Succeeds Q) :
    (x >>= f).Succeeds Q := by
  obtain ⟨a, events, ha, hx⟩ := h
  obtain ⟨b, more, hb, hfa⟩ := hf a ha
  exact ⟨b, events ++ more, hb, fun state => (hx state).bind_ok (hfa state)⟩

theorem bind_outcome (h : x.Succeeds P) {f : Except TemplateError α → Render σ β}
    (hf : ∀ a, P a → (f (.ok a)).Succeeds Q) : (x.outcome >>= f).Succeeds Q := by
  obtain ⟨a, events, ha, hx⟩ := h
  obtain ⟨b, more, hb, hfa⟩ := hf a ha
  exact ⟨b, events ++ more, hb, fun state => (hx state).outcome.bind_ok (hfa state)⟩

theorem imp (h : x.Succeeds P) {P' : α → Prop} (himp : ∀ a, P a → P' a) : x.Succeeds P' := by
  obtain ⟨a, events, ha, hx⟩ := h
  exact ⟨a, events, himp a ha, hx⟩

end Succeeds
end Render

def FunctionFreeAll (vs : List Value) : Prop := List.Forall₂ (Value.Resembles False True) vs vs

section
variable {σ : Type} {render : Branch → Value → Option Object → Render σ String}
  {call : Helper → Value → List Value → Render σ Value} {i : Invocation}

def BodiesSucceed (render : Branch → Value → Option Object → Render σ String) : Prop :=
  ∀ branch context data, context.FunctionFree →
    Option.Rel (Dict.Resembles False True) data data →
      (render branch context data).Succeeds fun _ => True

def ActsWell (render : Branch → Value → Option Object → Render σ String)
    (call : Helper → Value → List Value → Render σ Value) (a : Action σ) : Prop :=
  (a.run render call).Succeeds Value.FunctionFree

section
variable (hbodies : BodiesSucceed render)
include hbodies

theorem body_succeeds {context : Value} (branch : Branch) (hcontext : context.FunctionFree) :
    ActsWell render call (.body branch context) :=
  (hbodies branch context none hcontext .none).bind_outcome fun text _ => .pure (.string text)

theorem bodies_succeed {rounds : List (Value × Object)}
    (hrounds : List.Forall₂ (Builtin.RoundRel False True) rounds rounds) (text : String) :
    ActsWell render call (.bodies text (fun text => .done (.string text)) rounds) := by
  induction rounds generalizing text with
  | nil => exact .pure (.string text)
  | cons round rest ih =>
    obtain ⟨⟨hcontext, hdata⟩, hrest⟩ := List.forall₂_cons.1 hrounds
    exact (hbodies .main round.1 (some round.2) hcontext (.some hdata)).bind_outcome
      fun more _ => ih hrest (text ++ more)

end

namespace Builtin
variable (hbodies : BodiesSucceed render) (hi : i.Resembles False True i)
include hbodies hi

theorem eachAction_succeeds {v : Value} (hv : v.FunctionFree) :
    ActsWell render call (eachAction i v) := by
  have hrounds := rounds_resemble hi.data hv
  unfold eachAction
  split
  · exact body_succeeds hbodies .inverse hi.this
  · exact bodies_succeed hbodies hrounds ""

theorem choose_succeeds {v full : Value} (hfull : full.FunctionFree) :
    ActsWell render call (choose i v full) := by
  unfold choose
  split
  · exact body_succeeds hbodies .inverse hi.this
  · exact body_succeeds hbodies .main hfull

theorem sectionAction_succeeds {v : Value} (hv : v.FunctionFree) :
    ActsWell render call (sectionAction i v) := by
  unfold sectionAction
  split
  · exact body_succeeds hbodies .inverse hi.this
  split
  · exact eachAction_succeeds hbodies hi hv
  split
  · exact body_succeeds hbodies .main hv
  · exact body_succeeds hbodies .main hi.this

/-- A built-in helper that is given the arguments it takes does not fail. -/
theorem act_succeeds {b : Builtin} (harity : b.arity? = some i.args.length) :
    ActsWell render call (b.act i) := by
  obtain ⟨this, args, name, hash, data, isBlock⟩ := i
  have hthis : this.FunctionFree := hi.this
  have hargs : FunctionFreeAll args := hi.args
  have hcount (n : Nat) (hn : b.arity? = some n) : args.length = n :=
    (Option.some.inj (hn.symm.trans harity)).symm
  have hone (hb : b.arity? = some 1) : ∃ v, args = [v] ∧ v.FunctionFree := by
    obtain ⟨v, rfl⟩ := List.length_eq_one_iff.1 (hcount 1 hb)
    exact ⟨v, rfl, (List.forall₂_cons.1 hargs).1⟩
  cases b with
  | callMissing => cases harity
  | noop =>
    obtain rfl := List.length_eq_zero_iff.1 (hcount 0 rfl)
    exact body_succeeds hbodies .main hthis
  | withBlock =>
    obtain ⟨v, rfl, hv⟩ := hone rfl
    exact choose_succeeds hbodies hi hv
  | ifBlock =>
    obtain ⟨v, rfl, -⟩ := hone rfl
    exact choose_succeeds hbodies hi hthis
  | unlessBlock =>
    obtain ⟨v, rfl, -⟩ := hone rfl
    unfold act
    dsimp only
    split
    · exact body_succeeds hbodies .main hthis
    · exact body_succeeds hbodies .inverse hthis
  | eachBlock =>
    obtain ⟨v, rfl, hv⟩ := hone rfl
    exact eachAction_succeeds hbodies hi hv
  | lookup =>
    obtain ⟨v, key, rfl⟩ := List.length_eq_two.1 (hcount 2 rfl)
    refine .pure ?_
    split
    · exact (List.forall₂_cons.1 hargs).1.get key.text
    · exact .null
  | log =>
    obtain ⟨v, rfl, -⟩ := hone rfl
    exact (Render.Succeeds.report _).bind fun _ _ => .pure (.string "")
  | blockMissing =>
    obtain ⟨v, rfl, hv⟩ := hone rfl
    exact sectionAction_succeeds hbodies hi hv

end Builtin
end

/-- A head that leads to a built-in helper whatever its value is, with `n` arguments yet to be
given. -/
def Head.Takes (n : Nat) : Head → Prop
  | .helper (.builtin b) => b.arity? = some n
  | .value _ (some (.builtin b)) | .negated _ (some (.builtin b)) => b.arity? = some (n + 1)
  | _ => False

theorem Call.Saturated.takes {call : Call Expr} (h : call.Saturated) :
    call.head.Takes call.args.length := by
  obtain ⟨b, hhead, harity⟩ := h
  rw [hhead]
  exact harity

/-- What is read as a section leads to the helper for sections, which takes the value of the head. -/
theorem Call.IsSection.takes {d : Dialect} (hd : d.blockFallback = some (.builtin .blockMissing))
    {call : Call Expr} (h : call.IsSection) (hfrom : call.head.From d d.blockFallback) :
    call.head.Takes call.args.length := by
  obtain ⟨hhead, hargs⟩ := h
  obtain ⟨name, head, args, hash⟩ := call
  change args = [] at hargs
  subst hargs
  rw [hd] at hfrom
  cases hfrom with
  | helper => exact absurd rfl (hhead _)
  | value r => exact rfl
  | negated r => exact rfl

namespace Renderer
variable {σ : Type} {r : Renderer σ} {f : Frame} {this : Value}

section
variable (hf : f.Resembles False True f) (hthis : this.FunctionFree)
include hf hthis

theorem refer_succeeds (ref : Reference) (invoke : Bool) :
    (r.refer f this ref invoke).Succeeds Value.FunctionFree := by
  unfold refer
  obtain ⟨-, hv⟩ := hf.find hthis ref
  generalize f.find this ref = found at hv
  obtain ⟨owner, v⟩ := found
  change v.FunctionFree at hv
  cases ref.data || ref.names.isEmpty with
  | true => exact .pure hv
  | false =>
    cases v with
    | undefined => exact (Render.Succeeds.report _).bind fun _ _ => .pure .undefined
    | function g =>
      cases hv with
      | function h => exact h.elim
    | _ => exact .pure hv

/-- The head of a call leads to a built-in helper that takes the arguments there are. -/
theorem callee_succeeds (name : String) {n : Nat} {head : Head} (hhead : head.Takes n) :
    (r.callee f this name head).Succeeds fun p =>
      ∃ b, p.1 = .builtin b ∧ b.arity? = some (p.2.length + n) ∧ FunctionFreeAll p.2 := by
  match head with
  | .helper (.builtin b) => exact .pure ⟨b, rfl, by rw [hhead]; simp, .nil⟩
  | .value ref (some (.builtin b)) =>
    refine (refer_succeeds hf hthis ref false).bind fun v hv => ?_
    cases v with
    | function g =>
      cases hv with
      | function h => exact h.elim
    | _ => exact .pure ⟨b, rfl, by rw [hhead, Nat.add_comm]; rfl, .cons hv .nil⟩
  | .negated ref (some (.builtin b)) =>
    refine (refer_succeeds hf hthis ref false).bind fun v hv => ?_
    exact .pure ⟨b, rfl, by rw [hhead, Nat.add_comm]; rfl, .cons (.bool _) .nil⟩

theorem invoke_succeeds {render : Branch → Value → Option Object → Render σ String}
    (hbodies : BodiesSucceed render) {b : Builtin} {args : List Value}
    (harity : b.arity? = some args.length) (hargs : FunctionFreeAll args) :
    (r.invoke f render (.builtin b) this args).Succeeds Value.FunctionFree := by
  have hi : (f.invocation this args).Resembles False True (f.invocation this args) :=
    ⟨hthis, hargs, rfl, hf.level.data⟩
  exact Builtin.act_succeeds hbodies hi harity

end

variable {d : Dialect}

mutual

theorem eval_succeeds (hf : f.Resembles False True f) (hthis : this.FunctionFree) :
    (e : Expr) → e.From d → e.Saturated → (r.eval f this e).Succeeds Value.FunctionFree
  | .const v, hfrom, _ => by
    cases hfrom with
    | const h =>
      rw [eval]
      exact .pure (.of_isConstant h)
  | .reference ref invoke, _, _ => by
    rw [eval]
    exact refer_succeeds hf hthis ref invoke
  | .call ⟨name, head, args, hash⟩, hfrom, he => by
    cases hfrom with
    | call _ _ hargsfrom hhashfrom =>
    cases he with
    | call hcall hargs hhash =>
      rw [eval]
      refine (callee_succeeds hf hthis name hcall.takes).bind fun callee hcallee => ?_
      obtain ⟨h, first⟩ := callee
      obtain ⟨b, rfl, harity, hfirst⟩ := hcallee
      refine (evalArgs_succeeds hf hthis args hargsfrom hargs).bind fun vs hvs => ?_
      refine (evalHash_succeeds hf hthis hash hhashfrom hhash).bind fun hash hhash => ?_
      have hempty : BodiesSucceed (σ := σ) fun _ _ _ => pure "" := fun _ _ _ _ _ => .pure True.intro
      refine invoke_succeeds (hf.enter hthis name (.ofList hhash) none false) hthis hempty ?_
        (List.rel_append hfirst hvs.2)
      rw [harity, List.length_append, hvs.1]

theorem evalArgs_succeeds (hf : f.Resembles False True f) (hthis : this.FunctionFree) :
    (args : List Expr) → (∀ e ∈ args, e.From d) → (∀ e ∈ args, e.Saturated) →
      (r.evalArgs f this args).Succeeds fun vs => vs.length = args.length ∧ FunctionFreeAll vs
  | [], _, _ => by
    rw [evalArgs]
    exact .pure ⟨rfl, .nil⟩
  | e :: rest, hfrom, h => by
    rw [evalArgs]
    obtain ⟨he, hrest⟩ := List.forall_mem_cons.1 h
    obtain ⟨hefrom, hrestfrom⟩ := List.forall_mem_cons.1 hfrom
    refine (eval_succeeds hf hthis e hefrom he).bind fun v hv => ?_
    exact (evalArgs_succeeds hf hthis rest hrestfrom hrest).bind fun vs hvs =>
      .pure ⟨congrArg Nat.succ hvs.1, .cons hv hvs.2⟩

theorem evalHash_succeeds (hf : f.Resembles False True f) (hthis : this.FunctionFree) :
    (hash : List (String × Expr)) → (∀ entry ∈ hash, entry.2.From d) →
      (∀ entry ∈ hash, entry.2.Saturated) →
        (r.evalHash f this hash).Succeeds fun entries =>
          List.Forall₂ (EntryRel (Value.Resembles False True)) entries entries
  | [], _, _ => by
    rw [evalHash]
    exact .pure .nil
  | (key, e) :: rest, hfrom, h => by
    rw [evalHash]
    obtain ⟨he, hrest⟩ := List.forall_mem_cons.1 h
    obtain ⟨hefrom, hrestfrom⟩ := List.forall_mem_cons.1 hfrom
    refine (eval_succeeds hf hthis e hefrom he).bind fun v hv => ?_
    exact (evalHash_succeeds hf hthis rest hrestfrom hrest).bind fun entries hentries =>
      .pure (.cons (.mk key hv) hentries)

end

mutual

theorem renderItem_succeeds (hd : d.blockFallback = some (.builtin .blockMissing)) (f : Frame)
    (hf : f.Resembles False True f) (this : Value) (hthis : this.FunctionFree) :
    (item : Item) → item.From d → item.Saturated → item.includes = [] →
      (r.renderItem f this item).Succeeds fun _ => True
  | .text text, _, _, _ => by
    rw [renderItem]
    exact .pure True.intro
  | .escaped e, hfrom, hitem, _ => by
    cases hfrom with
    | escaped hfrom =>
      cases hitem with
      | escaped he =>
        rw [renderItem]
        exact (eval_succeeds hf hthis e hfrom he).bind fun _ _ => .pure True.intro
  | .unescaped e, hfrom, hitem, _ => by
    cases hfrom with
    | unescaped hfrom =>
      cases hitem with
      | unescaped he =>
        rw [renderItem]
        exact (eval_succeeds hf hthis e hfrom he).bind fun _ _ => .pure True.intro
  | .block ⟨call, body, inverse, chained⟩, hfrom, hitem, hflat => by
    cases hfrom with
    | block hcallfrom _ hbodyfrom hinversefrom =>
    cases hitem with
    | block hcall hargs hhash hbody hinverse =>
      rw [Item.includes, List.append_eq_nil_iff] at hflat
      have htakes : call.head.Takes call.args.length :=
        hcall.elim Call.Saturated.takes fun h => h.takes hd hcallfrom.head
      rw [renderItem]
      refine (callee_succeeds hf hthis call.name htakes).bind fun callee hcallee => ?_
      obtain ⟨h, first⟩ := callee
      obtain ⟨b, rfl, harity, hfirst⟩ := hcallee
      refine (evalArgs_succeeds hf hthis call.args hcallfrom.args hargs).bind fun vs hvs => ?_
      refine (evalHash_succeeds hf hthis call.hash hcallfrom.hash hhash).bind fun hash hhash => ?_
      have hinner := hf.enter hthis call.name (.ofList hhash) (some (body, inverse)) chained
      refine (invoke_succeeds hinner hthis ?_ ?_ (List.rel_append hfirst hvs.2)).bind
        fun _ _ => .pure True.intro
      · intro branch context data hcontext hdata
        cases branch with
        | main =>
          exact render_succeeds hd _ (hinner.withData hdata) context hcontext body hbodyfrom hbody
            hflat.1
        | inverse =>
          exact render_succeeds hd _ (hinner.withData hdata) context hcontext inverse hinversefrom
            hinverse hflat.2
      · rw [harity, List.length_append, hvs.1]
  | .inclusion i, _, _, hflat => by
    rw [Item.includes] at hflat
    cases hflat

/-- Saturated items without inclusions render to some text. -/
theorem render_succeeds (hd : d.blockFallback = some (.builtin .blockMissing)) (f : Frame)
    (hf : f.Resembles False True f) (this : Value) (hthis : this.FunctionFree) :
    (items : List Item) → (∀ item ∈ items, item.From d) → (∀ item ∈ items, item.Saturated) →
      includes items = [] → (r.render f this items).Succeeds fun _ => True
  | [], _, _, _ => by
    rw [render]
    exact .pure True.intro
  | item :: items, hfrom, hitems, hflat => by
    rw [includes, List.append_eq_nil_iff] at hflat
    obtain ⟨hitemfrom, hrestfrom⟩ := List.forall_mem_cons.1 hfrom
    obtain ⟨hitem, hrest⟩ := List.forall_mem_cons.1 hitems
    rw [render]
    refine (renderItem_succeeds hd f hf this hthis item hitemfrom hitem hflat.1).bind fun _ _ => ?_
    exact (render_succeeds hd f hf this hthis items hrestfrom hrest hflat.2).bind
      fun _ _ => .pure True.intro

end

end Renderer

namespace Template

/-- A template whose calls have the arguments that their helpers take renders to some text, whatever
is in its context and its data but functions. -/
theorem render_saturated {source : String} {t : Template} (h : ofSource source = .ok t)
    (hsaturated : ∀ item ∈ t.items, item.Saturated)
    (partial? : Dict Target → String → Option Template) {context : Value}
    (hcontext : context.FunctionFree) {seed : Object}
    (hseed : ∀ entry ∈ seed.entries, entry.2.FunctionFree) :
    ∃ text events, ∀ {σ : Type} (host : Host σ) (depth : Nat) (world : World σ),
      (t.render host partial? depth context seed).run world =
        some (.ok text, { world with events := world.events ++ events }) := by
  obtain ⟨outcome, events, hends⟩ := steady_of_ofSource h partial? hcontext hseed
  have hcompiled : ofSource t.source = .ok t := by
    obtain ⟨items, -, rfl⟩ := ofSource_eq_ok_iff.1 h
    exact h
  have hfrom := (Compiled.ofSource rfl hcompiled).from
  have hseed' : seed.Resembles False True seed :=
    List.forall₂_same.2 fun entry hentry => .mk entry.1 (hseed entry hentry)
  let silent : Host Unit := fun _ _ => .done .null
  have hsucceeds : (t.render silent partial? 0 context seed).Succeeds fun _ => True :=
    Renderer.render_succeeds rfl (Frame.root context seed t.links) (.root hcontext hseed' t.links)
      context hcontext t.items hfrom hsaturated (includes_ofSource h)
  obtain ⟨text, more, -, hok⟩ := hsucceeds
  have heq := (hends silent 0 () []).symm.trans (hok () [])
  cases heq
  exact ⟨text, events, fun host depth world => hends host depth world.state world.events⟩

def condition : Template where
  source := "\x7b\x7b#if a\x7d\x7d\x7b\x7belse s\x7d\x7d\x7b\x7b/if\x7d\x7d."
  items := [
    .block
      { call := ⟨"if", .helper (.builtin .ifBlock), [.reference ⟨false, 0, ["a"]⟩ true], []⟩
        body := []
        inverse := [.block
          { call := ⟨"s", .value ⟨false, 0, ["s"]⟩ (some (.builtin .blockMissing)), [], []⟩
            body := [], inverse := [], chained := true }]
        chained := false },
    .text "."]
  links := ⟨[]⟩

theorem ofSource_condition : ofSource condition.source = .ok condition := by cbv

theorem saturated_condition : ∀ item ∈ condition.items, item.Saturated := by
  have hsection : Item.Saturated (.block
      { call := ⟨"s", .value ⟨false, 0, ["s"]⟩ (some (.builtin .blockMissing)), [], []⟩
        body := [], inverse := [], chained := true }) :=
    .block (.inr ⟨nofun, rfl⟩) nofun nofun nofun nofun
  refine List.forall_mem_cons.2 ⟨?_, List.forall_mem_singleton.2 (.text _)⟩
  exact .block (.inl ⟨.ifBlock, rfl, rfl⟩) (List.forall_mem_singleton.2 (.reference _ _)) nofun nofun
    (List.forall_mem_singleton.2 hsection)

/-- In a text there are no properties, and no error comes of that. -/
theorem render_saturated_condition :
    ofSource condition.source = .ok condition ∧
      (∀ item ∈ condition.items, item.Saturated) ∧ (Value.string "x").FunctionFree ∧
      ∃ text events, ∀ {σ : Type} (host : Host σ) (depth : Nat) (world : World σ),
        (condition.render host (fun _ _ => none) depth (.string "x") ⟨[]⟩).run world =
          some (.ok text, { world with events := world.events ++ events }) :=
  ⟨ofSource_condition, saturated_condition, .string "x",
    render_saturated ofSource_condition saturated_condition _ (.string "x") nofun⟩

end Template
end Stencil
