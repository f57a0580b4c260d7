import Stencil.Proofs.ByName
import Stencil.Proofs.Concatenation

set_option autoImplicit false

/-!
# Parent references

A template is rendered from place to place, and a place is inside of levels. A block is a
level that remembers the context at its opening tag, in both of its bodies. A block that an else tag
opens takes over the level of the block it extends, and an inclusion is a level that remembers its
own context. What a parent reference leads to is what the level remembers.
-/
namespace Stencil

/-- Where rendering is: the levels around, and what the innermost call brought. -/
structure Place where
  /-- The innermost first. -/
  levels : List Level := []
  /-- The data outside of all levels. -/
  rootData : Object
  links : Dict Target
  hash : Object := ⟨[]⟩
  name : String := ""
  bodies : Option (List Item × List Item) := none

namespace Place
variable {σ : Type}

def start (context : Value) (seed : Object) (links : Dict Target) : Place where
  rootData := Dict.extend ⟨[("root", context)]⟩ seed.entries
  links := links

def data (p : Place) : Object := (p.levels.head?.map Level.data).getD p.rootData

def block (p : Place) (this : Value) (name : String) (hash : Object)
    (bodies : Option (List Item × List Item)) (chained : Bool) : Place :=
  { p with
    levels := ⟨this, p.data⟩ :: if chained then p.levels.tail else p.levels
    hash, name, bodies }

def inclusion (p : Place) (context : Value) (links : Dict Target) : Place where
  levels := ⟨context, p.data⟩ :: p.levels
  rootData := p.rootData
  links := links

def withData (p : Place) (data : Option Object) : Place :=
  match p.levels with
  | [] => { p with rootData := data.getD p.rootData }
  | level :: outer => { p with levels := { level with data := data.getD level.data } :: outer }

def contexts (p : Place) : List Value := p.levels.map Level.context

/-- What the level `j` levels out from the innermost one remembers. -/
def parent (p : Place) (j : Nat) : Value := p.contexts[j]?.getD .undefined

/-- The frame of a place. Around the outermost level there is one that remembers nothing. -/
def frame (p : Place) : Frame :=
  match p.levels with
  | [] =>
    { context := .undefined, data := p.rootData, hash := p.hash, name := p.name
      bodies := p.bodies, links := p.links }
  | level :: outer =>
    { toLevel := level, hash := p.hash, name := p.name, bodies := p.bodies, links := p.links
      outer := outer ++ [⟨.undefined, p.rootData⟩] }

mutual

def renderItem (r : Renderer σ) (nested : Place → Value → List Item → Render σ String)
    (p : Place) (this : Value) : Item → Render σ String
  | .text text => pure text
  | .escaped e => do
    let v ← r.eval p.frame this e
    return v.escaped
  | .unescaped e => do
    let v ← r.eval p.frame this e
    return v.text
  | .block ⟨call, body, inverse, chained⟩ => do
    let (h, first) ← r.callee p.frame this call.name call.head
    let args ← r.evalArgs p.frame this call.args
    let hash ← r.evalHash p.frame this call.hash
    let inner := p.block this call.name (.ofList hash) (some (body, inverse)) chained
    let render (branch : Branch) (context : Value) (data : Option Object) : Render σ String :=
      match branch with
      | .main => render r nested (inner.withData data) context body
      | .inverse => render r nested (inner.withData data) context inverse
    let v ← r.invoke inner.frame render h this (first ++ args)
    return v.text
  | .inclusion i =>
    match r.partial? p.links i.name with
    | none => throw (.missingPartial i.name)
    | some template => do
      let context ← r.inclusionContext p.frame this i
      nested (p.inclusion context template.links) context template.items

def render (r : Renderer σ) (nested : Place → Value → List Item → Render σ String)
    (p : Place) (this : Value) : List Item → Render σ String
  | [] => return ""
  | item :: items => do
    let text ← renderItem r nested p this item
    let rest ← render r nested p this items
    return text ++ rest

end

def renderNested (host : Host σ) (partial? : Dict Target → String → Option Template) :
    Nat → Place → Value → List Item → Render σ String
  | 0 => render (renderer host partial? 0) fun _ _ _ => Render.tooDeep
  | depth + 1 =>
    render (renderer host partial? (depth + 1)) (renderNested host partial? depth)

theorem frame_start (context : Value) (seed : Object) (links : Dict Target) :
    (start context seed links).frame = Frame.root context seed links := rfl

theorem frame_links (p : Place) : p.frame.links = p.links := by
  obtain ⟨levels, _⟩ := p
  cases levels <;> rfl

theorem frame_inclusion (p : Place) (context : Value) (links : Dict Target) :
    (p.inclusion context links).frame = p.frame.included context links := by
  obtain ⟨levels, _⟩ := p
  cases levels <;> rfl

theorem frame_block (p : Place) (this : Value) (name : String) (hash : Object)
    (bodies : Option (List Item × List Item)) (chained : Bool) :
    (p.block this name hash bodies chained).frame =
      p.frame.enter this name hash bodies chained := by
  obtain ⟨levels, _⟩ := p
  cases levels with
  | nil => cases chained <;> rfl
  | cons level outer => cases chained <;> cases outer <;> rfl

theorem frame_withData (p : Place) (data : Option Object) :
    (p.withData data).frame = p.frame.withData data := by
  obtain ⟨levels, _⟩ := p
  cases levels <;> rfl

theorem levels_frame (p : Place) :
    p.frame.toLevel :: p.frame.outer = p.levels ++ [⟨.undefined, p.rootData⟩] := by
  obtain ⟨levels, _⟩ := p
  cases levels <;> rfl

/-- A frame walks past the levels of its place to the one that remembers nothing. -/
theorem walk_frame (p : Place) (j : Nat) :
    ((p.frame.walk j).map Level.context).getD .undefined = p.parent j := by
  unfold Frame.walk parent contexts
  rw [levels_frame, List.getElem?_map]
  rcases Nat.lt_trichotomy j p.levels.length with hlt | heq | hgt
  · rw [List.getElem?_append_left hlt]
  · subst heq
    simp
  · rw [List.getElem?_eq_none (by simp; omega), List.getElem?_eq_none (Nat.le_of_lt hgt)]

section
variable {r : Renderer σ} {nested : Place → Value → List Item → Render σ String}

mutual

theorem renderItem_eq
    (hnested : ∀ p context items, nested p context items = r.nested p.frame context items)
    (p : Place) (this : Value) :
    (item : Item) → renderItem r nested p this item = r.renderItem p.frame this item
  | .text text => by rw [renderItem, Renderer.renderItem]
  | .escaped e => by rw [renderItem, Renderer.renderItem]
  | .unescaped e => by rw [renderItem, Renderer.renderItem]
  | .block ⟨call, body, inverse, chained⟩ => by
    have hbody (q : Place) (context : Value) := render_eq hnested q context body
    have hinverse (q : Place) (context : Value) := render_eq hnested q context inverse
    rw [renderItem, Renderer.renderItem]
    refine bind_congr fun ⟨h, first⟩ => bind_congr fun args => bind_congr fun hash => ?_
    dsimp only
    rw [frame_block]
    refine congrArg (fun render => r.invoke _ render h this (first ++ args) >>= _) ?_
    funext branch context data
    cases branch with
    | main => rw [hbody, frame_withData, frame_block]
    | inverse => rw [hinverse, frame_withData, frame_block]
  | .inclusion i => by
    rw [renderItem, Renderer.renderItem, Renderer.renderInclusion, frame_links]
    cases r.partial? p.links i.name with
    | none => rfl
    | some template => simp only [hnested, frame_inclusion]

theorem render_eq
    (hnested : ∀ p context items, nested p context items = r.nested p.frame context items)
    (p : Place) (this : Value) :
    (items : List Item) → render r nested p this items = r.render p.frame this items
  | [] => by rw [render, Renderer.render]
  | item :: items => by
    rw [render, Renderer.render, renderItem_eq hnested p this item, render_eq hnested p this items]

end

end

theorem renderNested_eq (host : Host σ) (partial? : Dict Target → String → Option Template)
    (depth : Nat) (p : Place) (this : Value) (items : List Item) :
    renderNested host partial? depth p this items =
      (renderer host partial? depth).render p.frame this items := by
  induction depth generalizing p this items with
  | zero => exact render_eq (fun _ _ _ => rfl) p this items
  | succ depth ih => exact render_eq ih p this items

theorem find_parent (p : Place) (this : Value) (j : Nat) (names : List String) :
    p.frame.find this ⟨false, j + 1, names⟩ = p.frame.find (p.parent j) ⟨false, 0, names⟩ :=
  congrArg (fun v => Value.follow .undefined v names) (walk_frame p j)

/-- A parent reference starts from what the level remembers, at any place. -/
theorem refer_parent (r : Renderer σ) (p : Place) (this : Value) (j : Nat) (names : List String)
    (invoke : Bool) :
    r.refer p.frame this ⟨false, j + 1, names⟩ invoke =
      r.refer p.frame (p.parent j) ⟨false, 0, names⟩ invoke := by
  rw [Renderer.refer, Renderer.refer, find_parent]

theorem eval_parent_alone (r : Renderer σ) (p : Place) (this : Value) (j : Nat) (invoke : Bool) :
    r.eval p.frame this (.reference ⟨false, j + 1, []⟩ invoke) = pure (p.parent j) :=
  refer_parent r p this j [] invoke

end Place

/-- An action that renders inverse bodies only with the given context. -/
inductive Action.InverseIn {σ : Type} (this : Value) : Action σ → Prop
  | done (v : Value) : InverseIn this (.done v)
  | fail (e : TemplateError) : InverseIn this (.fail e)
  | render {branch : Branch} {context : Value} {data : Option Object}
    {next : Except TemplateError String → Action σ} (h : branch = .inverse → context = this)
    (hnext : ∀ reply, InverseIn this (next reply)) :
    InverseIn this (.render branch context data next)
  | call {f : Helper} {context : Value} {args : List Value}
    {next : Except TemplateError Value → Action σ} (hnext : ∀ reply, InverseIn this (next reply)) :
    InverseIn this (.call f context args next)
  | report {e : Event} {next : Action σ} (hnext : InverseIn this next) :
    InverseIn this (.report e next)
  | read {next : σ → Action σ} (hnext : ∀ state, InverseIn this (next state)) :
    InverseIn this (.read next)
  | write {state : σ} {next : Action σ} (hnext : InverseIn this next) :
    InverseIn this (.write state next)

namespace Action.InverseIn
variable {σ : Type} {this context : Value} {branch : Branch}

theorem body (h : branch = .inverse → context = this) :
    (Action.body branch context : Action σ).InverseIn this := by
  refine .render h fun reply => ?_
  cases reply with
  | ok text => exact .done _
  | error e => exact .fail e

theorem bodies {next : String → Action σ} (hnext : ∀ text, (next text).InverseIn this)
    (rounds : List (Value × Object)) (text : String) :
    (Action.bodies text next rounds).InverseIn this := by
  induction rounds generalizing text with
  | nil => exact hnext text
  | cons round rounds ih =>
    refine .render nofun fun reply => ?_
    cases reply with
    | ok more => exact ih (text ++ more)
    | error e => exact .fail e

end Action.InverseIn

namespace Builtin
variable {σ : Type}

theorem eachAction_inverse (i : Invocation) (v : Value) :
    (eachAction i v : Action σ).InverseIn i.this := by
  unfold eachAction
  split
  · exact .body fun _ => rfl
  · exact .bodies (fun text => .done _) _ _

/-- The built-in blocks go on with the context at their opening tag where they are empty. -/
theorem act_inverse (b : Builtin) (i : Invocation) : (b.act i : Action σ).InverseIn i.this := by
  have hinverse : (Action.body .inverse i.this : Action σ).InverseIn i.this := .body fun _ => rfl
  have hmain (context : Value) : (Action.body .main context : Action σ).InverseIn i.this :=
    .body nofun
  unfold act
  split
  · exact hmain _
  · unfold choose; split
    · exact hinverse
    · exact hmain _
  · unfold choose; split
    · exact hinverse
    · exact hmain _
  · split
    · exact hmain _
    · exact hinverse
  · exact eachAction_inverse i _
  · exact .done _
  · exact .report (.done _)
  · unfold sectionAction
    split
    · exact hinverse
    · split
      · exact eachAction_inverse i _
      · split
        · exact hmain _
        · exact hmain _
  · exact .fail _
  · exact .fail _

end Builtin

namespace Place

/-- A block that is opened in the else body of another, with the context at the opening tag of that,
takes over its level as it is. -/
theorem block_chained (p : Place) (this : Value) (name name' : String) (hash hash' : Object)
    (bodies bodies' : Option (List Item × List Item)) (chained : Bool) (data : Option Object) :
    (((p.block this name hash bodies chained).withData data).block this name' hash' bodies'
      true).contexts = (p.block this name hash bodies chained).contexts :=
  rfl

end Place

/-- A template is rendered from place to place, and at each place a parent reference on its own
comes to the context that the level remembers, counted from the innermost one out, and to nothing
where there is no such level. It is never an error. With names behind it, it comes to what the names
come to in that context. The built-in helpers render else bodies with the context at the opening tag,
and there a chained block takes over the level as it is: in its bodies a parent reference comes to
what it comes to in the bodies of the block that it extends. -/
theorem Template.render_parents {σ : Type} (t : Template) (host : Host σ)
    (partial? : Dict Target → String → Option Template) (depth : Nat) (context : Value)
    (seed : Object) :
    t.render host partial? depth context seed =
        Place.renderNested host partial? depth (.start context seed t.links) context t.items ∧
      (∀ (r : Renderer σ) (p : Place) (this : Value) (j : Nat) (invoke : Bool),
        r.eval p.frame this (.reference ⟨false, j + 1, []⟩ invoke) = pure (p.parent j) ∧
          ∀ names : List String,
            r.eval p.frame this (.reference ⟨false, j + 1, names⟩ invoke) =
              r.eval p.frame (p.parent j) (.reference ⟨false, 0, names⟩ invoke)) ∧
      (∀ (r : Renderer σ) (p : Place) (this : Value) (j : Nat) (invoke : Bool),
        r.refer p.frame this ⟨false, j + 1, []⟩ invoke = pure (p.parent j) ∧
          ∀ names : List String, r.refer p.frame this ⟨false, j + 1, names⟩ invoke =
            r.refer p.frame (p.parent j) ⟨false, 0, names⟩ invoke) ∧
      (∀ (b : Builtin) (i : Invocation), (b.act i : Action σ).InverseIn i.this) ∧
      ∀ (p : Place) (this : Value) (name name' : String) (hash hash' : Object)
        (bodies bodies' : Option (List Item × List Item)) (chained : Bool) (data : Option Object),
        let opened := p.block this name hash bodies chained
        let extended := (opened.withData data).block this name' hash' bodies' true
        extended.contexts = opened.contexts ∧
          ∀ (r : Renderer σ) (this' : Value) (j : Nat) (invoke : Bool),
            r.eval extended.frame this' (.reference ⟨false, j + 1, []⟩ invoke) =
              r.eval opened.frame this' (.reference ⟨false, j + 1, []⟩ invoke) := by
  refine ⟨?_, fun r p this j invoke => ⟨?_, fun names => ?_⟩,
    fun r p this j invoke => ⟨?_, fun names => ?_⟩, Builtin.act_inverse, ?_⟩
  · rw [Place.renderNested_eq, Place.frame_start]
    rfl
  · exact Place.eval_parent_alone r p this j invoke
  · exact Place.refer_parent r p this j names invoke
  · exact Place.eval_parent_alone r p this j invoke
  · exact Place.refer_parent r p this j names invoke
  · intro p this name name' hash hash' bodies bodies' chained data opened extended
    have hcontexts : extended.contexts = opened.contexts := Place.block_chained ..
    refine ⟨hcontexts, fun r this' j invoke => ?_⟩
    rw [Place.eval_parent_alone, Place.eval_parent_alone, Place.parent, hcontexts]
    rfl

def parentListing : Template where
  source := "\x7b\x7b#with a\x7d\x7d\x7b\x7b> up\x7d\x7d\x7b\x7b/with\x7d\x7d\x7b\x7b../x\x7d\x7d"
  items := [
    .block
      { call := ⟨"with", .helper (.builtin .withBlock), [.reference ⟨false, 0, ["a"]⟩ true], []⟩
        body := [.inclusion ⟨"up", [], []⟩]
        inverse := []
        chained := false },
    .escaped (.reference ⟨false, 1, ["x"]⟩ true)]
  links := ⟨[]⟩

def parentChain : Template where
  source := "\x7b\x7b#if n\x7d\x7d\x7b\x7belse if x\x7d\x7d\x7b\x7b../x\x7d\x7d-\x7b\x7b../../../x\x7d\x7d\x7b\x7b/if\x7d\x7d"
  items := [.block
    { call := ⟨"if", .helper (.builtin .ifBlock), [.reference ⟨false, 0, ["n"]⟩ true], []⟩
      body := []
      inverse := [.block
        { call := ⟨"if", .helper (.builtin .ifBlock), [.reference ⟨false, 0, ["x"]⟩ true], []⟩
          body := [.escaped (.reference ⟨false, 1, ["x"]⟩ true), .text "-",
            .escaped (.reference ⟨false, 3, ["x"]⟩ true)]
          inverse := []
          chained := true }]
      chained := false }]
  links := ⟨[]⟩

def parentCatalog : Catalog where
  dialect := { helpers := Builtin.registry }
  sources := ⟨[("up", parentChain.source)]⟩

theorem compile_parentListing :
    parentCatalog.compile parentListing.source = .ok parentListing := by cbv

theorem compile_parentChain : parentCatalog.compile parentChain.source = .ok parentChain := by cbv

def parentPartial? (_ : Dict Target) (name : String) : Option Template :=
  if name = "up" then some parentChain else none

def parentContext : Value :=
  .object ⟨[("a", .object ⟨[("x", .string "in")]⟩), ("x", .string "out")]⟩

theorem renderNested_parentListing (host : Host Unit) :
    (Place.renderNested host parentPartial? 1 (.start parentContext ⟨[]⟩ parentListing.links)
      parentContext parentListing.items).result ⟨(), []⟩ = some (.ok "in-out") := rfl

/-- From a chained block out of an inclusion, and where there is no level. -/
theorem Template.render_parents_chain :
    parentCatalog.compile parentListing.source = .ok parentListing ∧
      parentCatalog.compile parentChain.source = .ok parentChain ∧
      ∀ host : Host Unit,
        (parentListing.render host parentPartial? 1 parentContext ⟨[]⟩).result ⟨(), []⟩ =
          some (.ok "in-out") := by
  refine ⟨compile_parentListing, compile_parentChain, fun host => ?_⟩
  rw [(render_parents parentListing host parentPartial? 1 parentContext ⟨[]⟩).1]
  exact renderNested_parentListing host

end Stencil
