import Stencil.Proofs.Asking
import Stencil.Render

set_option autoImplicit false

/-!
# Alike renderings

Templates render alike if they have the same items and the names that these include lead to
templates that are alike in turn, for as deep as rendering goes.
-/
namespace Stencil
namespace Render
variable {σ α β : Type}

/-- What a computation ends with: a result or an error, the state of the host and further events. -/
abbrev Ending (σ α : Type) := Option (Except TemplateError α × σ × List Event)

def EndsIn (x : Render σ α) (state : σ) (ending : Ending σ α) : Prop :=
  ∀ before, x ⟨state, before⟩ =
    ending.map fun (result, state, events) => (result, ⟨state, before ++ events⟩)

/-- Two computations end alike from each state of the host, and with no errors but those that are
allowed. -/
def Alike (allowed : TemplateError → Prop) (x y : Render σ α) : Prop :=
  ∀ state, ∃ ending : Ending σ α, x.EndsIn state ending ∧ y.EndsIn state ending ∧
    ∀ e rest, ending = some (.error e, rest) → allowed e

theorem EndsIn.of_quiet {x : Render σ α} {state state' : σ} {result : Except TemplateError α}
    (h : ∀ before, x ⟨state, before⟩ = some (result, ⟨state', before⟩)) :
    x.EndsIn state (some (result, state', [])) := by
  intro before
  simp only [Option.map_some, List.append_nil]
  exact h before

theorem EndsIn.bind_none {x : Render σ α} {state : σ} (h : x.EndsIn state none)
    (f : α → Render σ β) : (x >>= f).EndsIn state none := by
  intro before
  change (x ⟨state, before⟩ >>= _) = _
  rw [h before]
  rfl

theorem EndsIn.bind_error {x : Render σ α} {state state' : σ} {e : TemplateError}
    {events : List Event} (h : x.EndsIn state (some (.error e, state', events)))
    (f : α → Render σ β) : (x >>= f).EndsIn state (some (.error e, state', events)) := by
  intro before
  change (x ⟨state, before⟩ >>= _) = _
  rw [h before]
  rfl

theorem EndsIn.bind_ok {x : Render σ α} {state state' : σ} {a : α} {events : List Event}
    (h : x.EndsIn state (some (.ok a, state', events))) {f : α → Render σ β} {ending : Ending σ β}
    (hf : (f a).EndsIn state' ending) :
    (x >>= f).EndsIn state
      (ending.map fun (result, state, more) => (result, state, events ++ more)) := by
  intro before
  change (x ⟨state, before⟩ >>= _) = _
  rw [h before]
  change f a ⟨state', before ++ events⟩ = _
  rw [hf (before ++ events)]
  cases ending with
  | none => rfl
  | some r =>
    obtain ⟨result, state, more⟩ := r
    simp only [Option.map_some, List.append_assoc]

theorem EndsIn.outcome {x : Render σ α} {state : σ} {ending : Ending σ α} (h : x.EndsIn state ending) :
    x.outcome.EndsIn state (ending.map fun (result, rest) => (.ok result, rest)) := by
  intro before
  change (x ⟨state, before⟩ >>= _) = _
  rw [h before]
  cases ending <;> rfl

namespace Alike
variable {allowed : TemplateError → Prop}

theorem bind {x y : Render σ α} {f g : α → Render σ β} (h : x.Alike allowed y)
    (hf : ∀ a, (f a).Alike allowed (g a)) : (x >>= f).Alike allowed (y >>= g) := by
  intro state
  obtain ⟨ending, hx, hy, herror⟩ := h state
  match ending with
  | none => exact ⟨none, hx.bind_none f, hy.bind_none g, nofun⟩
  | some (.error e, state', events) =>
    refine ⟨_, hx.bind_error f, hy.bind_error g, ?_⟩
    rintro _ _ ⟨⟩
    exact herror e _ rfl
  | some (.ok a, state', events) =>
    obtain ⟨ending, hfa, hga, herror⟩ := hf a state'
    refine ⟨_, hx.bind_ok hfa, hy.bind_ok hga, fun e rest heq => ?_⟩
    obtain ⟨⟨result, rest'⟩, hending, heq⟩ := Option.map_eq_some_iff.1 heq
    cases heq
    exact herror e rest' hending

theorem bind_outcome {x y : Render σ α} {f g : Except TemplateError α → Render σ β}
    (h : x.Alike allowed y)
    (hf : ∀ r, (∀ e, r = .error e → allowed e) → (f r).Alike allowed (g r)) :
    (x.outcome >>= f).Alike allowed (y.outcome >>= g) := by
  intro state
  obtain ⟨ending, hx, hy, herror⟩ := h state
  match ending with
  | none => exact ⟨none, hx.outcome.bind_none f, hy.outcome.bind_none g, nofun⟩
  | some (result, state', events) =>
    obtain ⟨ending, hfr, hgr, herror'⟩ :=
      hf result (fun e he => herror e _ (by rw [he])) state'
    refine ⟨_, hx.outcome.bind_ok hfr, hy.outcome.bind_ok hgr, fun e rest heq => ?_⟩
    obtain ⟨⟨result, rest'⟩, hending, heq⟩ := Option.map_eq_some_iff.1 heq
    cases heq
    exact herror' e rest' hending

theorem of_ends {x : Render σ α} (h : ∀ state, ∃ ending : Ending σ α, x.EndsIn state ending ∧
    ∀ e rest, ending = some (.error e, rest) → allowed e) : x.Alike allowed x :=
  fun state => (h state).imp fun _ h => ⟨h.1, h.1, h.2⟩

theorem pure (a : α) : (pure a : Render σ α).Alike allowed (Pure.pure a) :=
  of_ends fun _ => ⟨_, .of_quiet fun _ => rfl, nofun⟩

theorem throw {e : TemplateError} (h : allowed e) :
    (throw e : Render σ α).Alike allowed (MonadExcept.throw e) := by
  refine of_ends fun _ => ⟨_, .of_quiet fun _ => rfl, ?_⟩
  rintro _ _ ⟨⟩
  exact h

theorem tooDeep : (tooDeep : Render σ α).Alike allowed Render.tooDeep :=
  of_ends fun _ => ⟨none, fun _ => rfl, nofun⟩

theorem report (e : Event) : (report e : Render σ Unit).Alike allowed (Render.report e) :=
  of_ends fun state => ⟨some (.ok (), state, [e]), fun _ => rfl, nofun⟩

theorem write (state : σ) :
    (modify fun w => { w with state := state } : Render σ Unit).Alike allowed
      (modify fun w => { w with state := state }) :=
  of_ends fun _ => ⟨_, .of_quiet fun _ => rfl, nofun⟩

theorem read {f g : σ → Render σ α} (h : ∀ state, (f state).Alike allowed (g state)) :
    (do let w ← get; f w.state : Render σ α).Alike allowed (do let w ← get; g w.state) := by
  intro state
  obtain ⟨ending, hf, hg, herror⟩ := h state state
  exact ⟨ending, hf, hg, herror⟩

theorem ite {p : Prop} [Decidable p] {x x' y y' : Render σ α} (h : x.Alike allowed y)
    (h' : x'.Alike allowed y') : (if p then x else x').Alike allowed (if p then y else y') := by
  split
  · exact h
  · exact h'

theorem results {x y : Render σ α} (h : x.Alike allowed y) (state : σ) (before before' : List Event) :
    (x ⟨state, before⟩).map (fun r => (r.1, r.2.state)) =
      (y ⟨state, before'⟩).map fun r => (r.1, r.2.state) := by
  obtain ⟨ending, hx, hy, -⟩ := h state
  rw [hx before, hy before', Option.map_map, Option.map_map]
  rfl

theorem error {x y : Render σ α} (h : x.Alike allowed y) {world world' : World σ}
    {e : TemplateError} (hx : x world = some (.error e, world')) : allowed e := by
  obtain ⟨ending, hends, -, herror⟩ := h world.state
  have heq := (hends world.events).symm.trans hx
  obtain ⟨⟨result, state', events⟩, hending, heq⟩ := Option.map_eq_some_iff.1 heq
  cases heq
  exact herror e _ hending

end Alike
end Render

inductive Action.FailsWith {σ : Type} (allowed : TemplateError → Prop) : Action σ → Prop
  | done (v : Value) : FailsWith allowed (.done v)
  | fail {e : TemplateError} (h : allowed e) : FailsWith allowed (.fail e)
  | render {branch : Branch} {context : Value} {data : Option Object}
    {next : Except TemplateError String → Action σ}
    (h : ∀ r, (∀ e, r = .error e → allowed e) → FailsWith allowed (next r)) :
    FailsWith allowed (.render branch context data next)
  | call {f : Helper} {this : Value} {args : List Value}
    {next : Except TemplateError Value → Action σ}
    (h : ∀ r, (∀ e, r = .error e → allowed e) → FailsWith allowed (next r)) :
    FailsWith allowed (.call f this args next)
  | report {e : Event} {next : Action σ} (h : FailsWith allowed next) :
    FailsWith allowed (.report e next)
  | read {next : σ → Action σ} (h : ∀ state, FailsWith allowed (next state)) :
    FailsWith allowed (.read next)
  | write {state : σ} {next : Action σ} (h : FailsWith allowed next) :
    FailsWith allowed (.write state next)

theorem Action.failsWith_true {σ : Type} (a : Action σ) : a.FailsWith fun _ => True := by
  induction a with
  | done v => exact .done v
  | fail e => exact .fail True.intro
  | render branch context data next ih => exact .render fun r _ => ih r
  | call f this args next ih => exact .call fun r _ => ih r
  | report e next ih => exact .report ih
  | read next ih => exact .read ih
  | write state next ih => exact .write ih

theorem Action.run_alike {σ : Type} {allowed : TemplateError → Prop}
    {render render' : Branch → Value → Option Object → Render σ String}
    {call call' : Helper → Value → List Value → Render σ Value}
    (hrender : ∀ branch context data,
      (render branch context data).Alike allowed (render' branch context data))
    (hcall : ∀ f this args, (call f this args).Alike allowed (call' f this args)) {a : Action σ}
    (ha : a.FailsWith allowed) : (a.run render call).Alike allowed (a.run render' call') := by
  induction ha with
  | done v => exact .pure v
  | fail h => exact .throw h
  | render _ ih => exact (hrender _ _ _).bind_outcome ih
  | call _ ih => exact (hcall _ _ _).bind_outcome ih
  | report _ ih => exact (Render.Alike.report _).bind fun _ => ih
  | read _ ih => exact .read ih
  | write _ ih => exact (Render.Alike.write _).bind fun _ => ih

def Frame.relink (f : Frame) (links : Dict Target) : Frame := { f with links := links }

/-- A relation of names under links: related names lead to templates with the same items, whose
names are related again, or lead nowhere. -/
def Matches (partial? partial?' : Dict Target → String → Option Template)
    (related : Dict Target → Dict Target → String → Prop) : Prop :=
  ∀ links links' name, related links links' name →
    (partial? links name = none ∧ partial?' links' name = none) ∨
      ∃ t t', partial? links name = some t ∧ partial?' links' name = some t' ∧ t.items = t'.items ∧
        ∀ other ∈ includes t.items, related t.links t'.links other

section
variable {σ : Type} {allowed : TemplateError → Prop}
  {related : Dict Target → Dict Target → String → Prop}

def Frame.Covers (related : Dict Target → Dict Target → String → Prop) (f : Frame)
    (links : Dict Target) : Prop :=
  ∀ branch, ∀ name ∈ includes (f.body branch), related f.links links name

structure Tolerates (allowed : TemplateError → Prop)
    (related : Dict Target → Dict Target → String → Prop) (host : Host σ)
    (partial? : Dict Target → String → Option Template) : Prop where
  helpers : ∀ f i, (Helper.act host f i).FailsWith allowed
  missingHelper : ∀ name, allowed (.missingHelper name)
  missingPartial : ∀ links links' name, related links links' name → partial? links name = none →
    allowed (.missingPartial name)

structure Renderer.Alike (allowed : TemplateError → Prop)
    (related : Dict Target → Dict Target → String → Prop) (r r' : Renderer σ) : Prop where
  host : r.host = r'.host
  partials : Matches r.partial? r'.partial? related
  tolerates : Tolerates allowed related r.host r.partial?
  nested : ∀ f links this items, f.Covers related links →
    (∀ name ∈ includes items, related f.links links name) →
    (r.nested f this items).Alike allowed (r'.nested (f.relink links) this items)
  nestedCall : ∀ f links h this args, f.Covers related links →
    (r.nestedCall f h this args).Alike allowed (r'.nestedCall (f.relink links) h this args)

theorem Frame.covers_of_none {f : Frame} (h : f.bodies = none) (links : Dict Target) :
    f.Covers related links := by
  intro branch name hname
  have hnil : f.body branch = [] := by
    cases branch <;> simp [Frame.body, h]
  rw [hnil] at hname
  cases hname

namespace Renderer
variable {r r' : Renderer σ} {f : Frame} {links : Dict Target}

theorem refer_alike (hr : r.Alike allowed related r') (hf : f.Covers related links) (this : Value)
    (ref : Reference) (invoke : Bool) :
    (r.refer f this ref invoke).Alike allowed (r'.refer (f.relink links) this ref invoke) := by
  unfold refer
  have hfind : (f.relink links).find this ref = f.find this ref := rfl
  rw [hfind]
  generalize f.find this ref = found
  obtain ⟨owner, v⟩ := found
  cases ref.data || ref.names.isEmpty with
  | true => exact .pure v
  | false =>
    cases v with
    | undefined => exact (Render.Alike.report _).bind fun _ => .pure _
    | function g => exact .ite (hr.nestedCall f links g owner [] hf) (.pure _)
    | _ => exact .pure _

theorem fallBack_alike (h : ∀ name, allowed (.missingHelper name)) (name : String)
    (fallback : Option Helper) (v : Value) :
    (fallBack name fallback v : Render σ _).Alike allowed (fallBack name fallback v) := by
  cases fallback with
  | none => exact .throw (h name)
  | some h => exact .pure _

theorem callee_alike (hr : r.Alike allowed related r') (hf : f.Covers related links) (this : Value)
    (name : String) (head : Head) :
    (r.callee f this name head).Alike allowed (r'.callee (f.relink links) this name head) := by
  cases head with
  | helper h => exact .pure _
  | value ref fallback =>
    refine (refer_alike hr hf this ref false).bind fun v => ?_
    split
    · exact .pure _
    · exact fallBack_alike hr.tolerates.missingHelper name fallback v
  | negated ref fallback =>
    exact (refer_alike hr hf this ref false).bind fun v => fallBack_alike hr.tolerates.missingHelper name fallback _

theorem invoke_alike (hr : r.Alike allowed related r') (hf : f.Covers related links)
    {render render' : Branch → Value → Option Object → Render σ String}
    (hrender : ∀ branch context data,
      (render branch context data).Alike allowed (render' branch context data))
    (h : Helper) (this : Value) (args : List Value) :
    (r.invoke f render h this args).Alike allowed (r'.invoke (f.relink links) render' h this args) := by
  unfold invoke
  rw [← hr.host]
  exact Action.run_alike hrender (fun g this args => hr.nestedCall f links g this args hf)
    (hr.tolerates.helpers h _)

mutual

theorem eval_alike (hr : r.Alike allowed related r') (hf : f.Covers related links) (this : Value) :
    (e : Expr) → (r.eval f this e).Alike allowed (r'.eval (f.relink links) this e)
  | .const v => by
    rw [eval, eval]
    exact .pure v
  | .reference ref invoke => by
    rw [eval, eval]
    exact refer_alike hr hf this ref invoke
  | .call ⟨name, head, args, hash⟩ => by
    rw [eval, eval]
    refine (callee_alike hr hf this name head).bind fun callee => ?_
    refine (evalArgs_alike hr hf this args).bind fun args => ?_
    refine (evalHash_alike hr hf this hash).bind fun hash => ?_
    exact invoke_alike hr (Frame.covers_of_none rfl links) (fun _ _ _ => .pure "") _ this _

theorem evalArgs_alike (hr : r.Alike allowed related r') (hf : f.Covers related links) (this : Value) :
    (args : List Expr) → (r.evalArgs f this args).Alike allowed (r'.evalArgs (f.relink links) this args)
  | [] => by
    rw [evalArgs, evalArgs]
    exact .pure _
  | e :: rest => by
    rw [evalArgs, evalArgs]
    refine (eval_alike hr hf this e).bind fun v => ?_
    exact (evalArgs_alike hr hf this rest).bind fun vs => .pure _

theorem evalHash_alike (hr : r.Alike allowed related r') (hf : f.Covers related links) (this : Value) :
    (hash : List (String × Expr)) →
      (r.evalHash f this hash).Alike allowed (r'.evalHash (f.relink links) this hash)
  | [] => by
    rw [evalHash, evalHash]
    exact .pure _
  | (key, e) :: rest => by
    rw [evalHash, evalHash]
    refine (eval_alike hr hf this e).bind fun v => ?_
    exact (evalHash_alike hr hf this rest).bind fun vs => .pure _

end

theorem inclusionContext_alike (hr : r.Alike allowed related r') (hf : f.Covers related links) (this : Value)
    (i : Inclusion) :
    (r.inclusionContext f this i).Alike allowed (r'.inclusionContext (f.relink links) this i) := by
  have hash (fields : Object) :
      (do let hash ← r.evalHash f this i.hash
          return Value.object (fields.extend hash)).Alike allowed
        (do let hash ← r'.evalHash (f.relink links) this i.hash
            return Value.object (fields.extend hash)) :=
    (evalHash_alike hr hf this i.hash).bind fun hash => .pure _
  obtain ⟨name, args, named⟩ := i
  unfold inclusionContext
  cases args with
  | nil => exact (Render.Alike.pure this).bind fun context => .ite (.pure _) (hash _)
  | cons e rest =>
    exact (eval_alike hr hf this e).bind fun context => .ite (.pure _) (hash _)

/-- A name that leads nowhere is an error in both; elsewhere the templates are alike. -/
theorem renderInclusion_alike (hr : r.Alike allowed related r') (hf : f.Covers related links) (this : Value)
    (i : Inclusion) (hi : related f.links links i.name) :
    (r.renderInclusion f this i).Alike allowed (r'.renderInclusion (f.relink links) this i) := by
  unfold renderInclusion
  rcases hr.partials f.links links i.name hi with ⟨hnone, hnone'⟩ | ⟨t, t', ht, ht', hitems, hnames⟩
  · rw [hnone]
    rw [show r'.partial? (f.relink links).links i.name = none from hnone']
    exact .throw (hr.tolerates.missingPartial f.links links i.name hi hnone)
  · rw [ht]
    rw [show r'.partial? (f.relink links).links i.name = some t' from ht']
    refine (inclusionContext_alike hr hf this i).bind fun context => ?_
    rw [← hitems]
    exact hr.nested (f.included context t.links) t'.links context t.items
      (Frame.covers_of_none rfl _) hnames

mutual

theorem renderItem_alike (hr : r.Alike allowed related r') (g : Frame) (hg : g.Covers related links)
    (this : Value) : (item : Item) → (∀ name ∈ item.includes, related g.links links name) →
      (r.renderItem g this item).Alike allowed (r'.renderItem (g.relink links) this item)
  | .text text, _ => by
    rw [renderItem, renderItem]
    exact .pure text
  | .escaped e, _ => by
    rw [renderItem, renderItem]
    exact (eval_alike hr hg this e).bind fun v => .pure _
  | .unescaped e, _ => by
    rw [renderItem, renderItem]
    exact (eval_alike hr hg this e).bind fun v => .pure _
  | .block ⟨call, body, inverse, chained⟩, hnames => by
    rw [renderItem, renderItem]
    rw [Item.includes] at hnames
    refine (callee_alike hr hg this call.name call.head).bind fun callee => ?_
    refine (evalArgs_alike hr hg this call.args).bind fun args => ?_
    refine (evalHash_alike hr hg this call.hash).bind fun hash => ?_
    have hbody := fun name hname => hnames name (List.mem_append_left _ hname)
    have hinverse := fun name hname => hnames name (List.mem_append_right _ hname)
    have hinner : (g.enter this call.name (.ofList hash) (some (body, inverse)) chained).Covers
        related links := by
      intro branch
      cases branch with
      | main => exact hbody
      | inverse => exact hinverse
    refine (invoke_alike hr hinner ?_ callee.1 this (callee.2 ++ args)).bind fun v => .pure _
    intro branch context data
    cases branch with
    | main =>
      exact render_alike hr ((g.enter this call.name (.ofList hash) _ chained).withData data)
        hinner context body hbody
    | inverse =>
      exact render_alike hr ((g.enter this call.name (.ofList hash) _ chained).withData data)
        hinner context inverse hinverse
  | .inclusion i, hnames => by
    rw [renderItem, renderItem]
    exact renderInclusion_alike hr hg this i (hnames i.name List.mem_cons_self)

theorem render_alike (hr : r.Alike allowed related r') (g : Frame) (hg : g.Covers related links)
    (this : Value) :
    (items : List Item) → (∀ name ∈ includes items, related g.links links name) →
      (r.render g this items).Alike allowed (r'.render (g.relink links) this items)
  | [], _ => by
    rw [render, render]
    exact .pure ""
  | item :: items, hnames => by
    rw [render, render]
    rw [includes] at hnames
    have hitem := fun name hname => hnames name (List.mem_append_left _ hname)
    have hitems := fun name hname => hnames name (List.mem_append_right _ hname)
    refine (renderItem_alike hr g hg this item hitem).bind fun text => ?_
    exact (render_alike hr g hg this items hitems).bind fun rest => .pure _

end

theorem callAnew_alike (hr : r.Alike allowed related r') (hf : f.Covers related links) (h : Helper)
    (this : Value) (args : List Value) :
    (r.callAnew f h this args).Alike allowed (r'.callAnew (f.relink links) h this args) := by
  refine invoke_alike hr hf (fun branch context data => ?_) h this args
  exact hr.nested (f.withData data) links context (f.body branch) hf (hf branch)

end Renderer

variable {partial? partial?' : Dict Target → String → Option Template}

/-- However deep renderings may nest. -/
theorem renderer_alike (h : Matches partial? partial?' related) {host : Host σ}
    (ht : Tolerates allowed related host partial?) (depth : Nat) :
    (renderer host partial? depth).Alike allowed related (renderer host partial?' depth) := by
  induction depth with
  | zero => exact ⟨rfl, h, ht, fun _ _ _ _ _ _ => .tooDeep, fun _ _ _ _ _ _ => .tooDeep⟩
  | succ depth ih =>
    exact ⟨rfl, h, ht, fun f _ this items hf hnames => Renderer.render_alike ih f hf this items hnames,
      fun _ _ g this args hf => Renderer.callAnew_alike ih hf g this args⟩

/-- Templates with the same items and related names have the same text, or the same error, which is
one of those allowed. -/
theorem Template.render_tolerates (h : Matches partial? partial?' related) {host : Host σ}
    (ht : Tolerates allowed related host partial?) (t t' : Template) (hitems : t.items = t'.items)
    (hnames : ∀ name ∈ includes t.items, related t.links t'.links name) (depth : Nat)
    (context : Value) (seed : Object) :
    (t.render host partial? depth context seed).Alike allowed
      (t'.render host partial?' depth context seed) := by
  unfold Template.render
  rw [← hitems]
  exact Renderer.render_alike (renderer_alike h ht depth) (Frame.root context seed t.links)
    (Frame.covers_of_none rfl t'.links) context t.items hnames

theorem Template.render_alike (h : Matches partial? partial?' related) (t t' : Template)
    (hitems : t.items = t'.items) (hnames : ∀ name ∈ includes t.items, related t.links t'.links name)
    (host : Host σ) (depth : Nat) (context : Value) (seed : Object) :
    (t.render host partial? depth context seed).Alike (fun _ => True)
      (t'.render host partial?' depth context seed) := by
  have ht : Tolerates (fun _ => True) related host partial? :=
    ⟨fun _ _ => Action.failsWith_true _, fun _ => True.intro, fun _ _ _ _ _ => True.intro⟩
  exact render_tolerates h ht t t' hitems hnames depth context seed

end
end Stencil
