import Stencil.Proofs.ByName
import Stencil.Proofs.Parents
import Stencil.Proofs.Sight

set_option autoImplicit false

/-!
# Scopes of local data

A block over the items of a value binds names in each of its rounds. What is seen at a place is what
the rounds around it bind, the innermost first, and behind these the seed and the root. A level keeps
the rounds that are around it, so parent steps lead to what is seen there.
-/
namespace Stencil

theorem Dict.get?_extend {α : Type} (d : Dict α) {e : Dict α} (h : e.Distinct) (key : String) :
    (d.extend e.entries).get? key = (e.get? key).or (d.get? key) := by
  obtain ⟨entries⟩ := e
  change (entries.map Prod.fst).Nodup at h
  change _ = (firstEntry key entries).or _
  induction entries generalizing d with
  | nil => rfl
  | cons entry rest ih =>
    obtain ⟨k, v⟩ := entry
    rw [List.map_cons, List.nodup_cons] at h
    change ((d.insert k v).extend rest).get? key = _
    rw [ih (d.insert k v) h.2, get?_insert, firstEntry]
    split
    · next heq =>
      subst heq
      rw [firstEntry_eq_none h.1]
      rfl
    · rfl

inductive Round
  | item (index count : Nat)
  | field (index : Nat) (key : String)

namespace Round

def bound? : Round → String → Option Value
  | item index count, name =>
    if name = "first" then some (.bool (index = 0))
    else if name = "last" then some (.bool (index + 1 = count))
    else if name = "index" then some (.ofNat index)
    else none
  | field index key, name =>
    if name = "first" then some (.bool (index = 0))
    else if name = "key" then some (.string key)
    else if name = "index" then some (.ofNat index)
    else none

def write (data : Object) : Round → Object
  | item index count =>
    Builtin.roundData data (index = 0) ("last", .bool (index + 1 = count)) index
  | field index key => Builtin.roundData data (index = 0) ("key", .string key) index

theorem get?_write (data : Object) (round : Round) (name : String) :
    (round.write data).get? name = (round.bound? name).or (data.get? name) := by
  cases round <;>
    simp only [write, bound?, Builtin.roundData, Dict.get?_insert, eq_comm (b := name)] <;>
    by_cases hindex : name = "index" <;> by_cases hfirst : name = "first" <;>
    simp_all <;> split <;> rfl

/-- Of several rounds the innermost one counts that binds the name. -/
theorem get?_writes (data : Object) (rounds : List Round) (name : String) :
    (rounds.foldr (fun round data => round.write data) data).get? name =
      (rounds.findSome? (·.bound? name)).or (data.get? name) := by
  induction rounds with
  | nil => rfl
  | cons round rounds ih =>
    rw [List.foldr_cons, get?_write, ih, List.findSome?_cons]
    cases round.bound? name <;> rfl

end Round

/-- A rendering of one of the bodies, with its context, and the round if it is one. -/
structure Part where
  branch : Branch
  context : Value
  round : Option Round

namespace Builtin

def iterations : Value → List (Value × Round)
  | .array items => items.zipIdx.map fun (item, i) => (item, .item i items.length)
  | .object fields => fields.entries.zipIdx.map fun ((key, item), i) => (item, .field i key)
  | _ => []

def eachParts (this v : Value) : List Part :=
  match iterations v with
  | [] => [⟨.inverse, this, none⟩]
  | rounds => rounds.map fun (item, round) => ⟨.main, item, some round⟩

/-- What a block renders, one after another, if it renders its bodies at all. -/
def parts? (b : Builtin) (this : Value) (args : List Value) : Option (List Part) :=
  match b, args with
  | noop, [] => some [⟨.main, this, none⟩]
  | withBlock, [v] => some [if v.isEmpty then ⟨.inverse, this, none⟩ else ⟨.main, v, none⟩]
  | ifBlock, [v] => some [if v.isEmpty then ⟨.inverse, this, none⟩ else ⟨.main, this, none⟩]
  | unlessBlock, [v] => some [if v.isEmpty then ⟨.main, this, none⟩ else ⟨.inverse, this, none⟩]
  | eachBlock, [v] => some (eachParts this v)
  | blockMissing, [v] =>
    if v.isEmpty then some [⟨.inverse, this, none⟩]
    else if v.isArray then some (eachParts this v)
    else if v.isObject then some [⟨.main, v, none⟩]
    else some [⟨.main, this, none⟩]
  | _, _ => none

theorem rounds_eq (data : Object) (v : Value) :
    rounds data v = (iterations v).map fun (item, round) => (item, round.write data) := by
  cases v <;> simp [rounds, iterations, Round.write]

inductive Offers (this : Value) (args : List Value) : Part → Prop
  | inverse : Offers this args ⟨.inverse, this, none⟩
  | main : Offers this args ⟨.main, this, none⟩
  | inside {v : Value} (h : v ∈ args) : Offers this args ⟨.main, v, none⟩
  | round {v item : Value} {round : Round} (h : v ∈ args) (hround : (item, round) ∈ iterations v) :
    Offers this args ⟨.main, item, some round⟩

section
variable {b : Builtin} {this v : Value} {args : List Value} {parts : List Part}

theorem eachParts_offers (hv : v ∈ args) : ∀ p ∈ eachParts this v, Offers this args p := by
  unfold eachParts
  split
  · exact List.forall_mem_singleton.2 .inverse
  · intro p hp
    obtain ⟨⟨item, round⟩, hround, rfl⟩ := List.mem_map.1 hp
    exact .round hv hround

theorem parts_offers (h : b.parts? this args = some parts) : ∀ p ∈ parts, Offers this args p := by
  have hite {c : Prop} [Decidable c] {p q : Part} (hp : Offers this args p)
      (hq : Offers this args q) : ∀ part ∈ [if c then p else q], Offers this args part := by
    split
    · exact List.forall_mem_singleton.2 hp
    · exact List.forall_mem_singleton.2 hq
  unfold parts? at h
  split at h
  · cases h
    exact List.forall_mem_singleton.2 .main
  · cases h
    exact hite .inverse (.inside List.mem_cons_self)
  · cases h
    exact hite .inverse .main
  · cases h
    exact hite .main .inverse
  · cases h
    exact eachParts_offers List.mem_cons_self
  · split_ifs at h <;> cases h
    · exact List.forall_mem_singleton.2 .inverse
    · exact eachParts_offers List.mem_cons_self
    · exact List.forall_mem_singleton.2 (.inside List.mem_cons_self)
    · exact List.forall_mem_singleton.2 .main
  · cases h

end
end Builtin

namespace Render
variable {σ α β : Type}

theorem outcome_bind (x : Render σ α) {f : Except TemplateError α → Render σ β}
    (herror : ∀ e, f (.error e) = throw e) : x.outcome >>= f = x >>= fun a => f (.ok a) := by
  funext world
  change ((x world >>= fun p => some (Except.ok p.1, p.2)) >>= _) = (x world >>= _)
  rcases x world with _ | ⟨e | a, world'⟩
  · rfl
  · exact congrFun (herror e) world'
  · rfl

def parts (render : Part → Render σ String) : List Part → Render σ String
  | [] => return ""
  | p :: rest => do
    let text ← render p
    let more ← parts render rest
    return text ++ more

theorem parts_congr {render render' : Part → Render σ String} {ps : List Part}
    (h : ∀ p ∈ ps, render p = render' p) : parts render ps = parts render' ps := by
  induction ps with
  | nil => rfl
  | cons p ps ih =>
    obtain ⟨hp, hps⟩ := List.forall_mem_cons.1 h
    rw [parts, parts, hp, ih hps]

end Render

namespace Action
variable {σ : Type} {render : Branch → Value → Option Object → Render σ String}
  {call : Helper → Value → List Value → Render σ Value}

theorem run_body (branch : Branch) (context : Value) :
    (body branch context).run render call =
      do let text ← render branch context none; return .string text :=
  Render.outcome_bind _ fun _ => rfl

theorem run_bodies (data : Object) (rounds : List (Value × Round)) (text : String) :
    (bodies text (fun text => .done (.string text))
      (rounds.map fun (item, round) => (item, round.write data))).run render call =
      do
        let more ← Render.parts (fun p => render p.branch p.context (p.round.map (·.write data)))
          (rounds.map fun (item, round) => ⟨.main, item, some round⟩)
        return .string (text ++ more) := by
  induction rounds generalizing text with
  | nil => simp [bodies, run, Render.parts]
  | cons round rounds ih =>
    obtain ⟨item, round⟩ := round
    rw [List.map_cons, List.map_cons, bodies, run, Render.parts]
    refine (Render.outcome_bind _ fun _ => rfl).trans ?_
    simp only [bind_assoc, pure_bind, ih, String.append_assoc]
    rfl

end Action

namespace Builtin
variable {σ : Type} {render : Branch → Value → Option Object → Render σ String}
  {call : Helper → Value → List Value → Render σ Value}

theorem run_eachAction (i : Invocation) (v : Value) :
    (eachAction i v).run render call =
      do
        let text ← Render.parts
          (fun p => render p.branch p.context (p.round.map (·.write i.data))) (eachParts i.this v)
        return .string text := by
  unfold eachAction eachParts
  rw [rounds_eq]
  cases iterations v with
  | nil => simp [Action.run_body, Render.parts]
  | cons round rounds =>
    refine (Action.run_bodies i.data (round :: rounds) "").trans ?_
    simp only [String.empty_append]

/-- A block renders its parts, or else none of its bodies. -/
theorem run_act (b : Builtin) (i : Invocation) :
    (b.act i).run render call =
      match b.parts? i.this i.args with
      | some parts => do
        let text ← Render.parts
          (fun p => render p.branch p.context (p.round.map (·.write i.data))) parts
        return .string text
      | none => (b.act i).run (fun _ _ _ => pure "") call := by
  have hone (branch : Branch) (context : Value) :
      (Action.body branch context).run render call = do
        let text ← Render.parts
          (fun p => render p.branch p.context (p.round.map (·.write i.data)))
          [⟨branch, context, none⟩]
        return .string text := by
    simp [Action.run_body, Render.parts]
  obtain ⟨this, args, name, hash, data, isBlock⟩ := i
  cases b with
  | noop =>
    match args with
    | [] => exact hone .main this
    | _ :: _ => rfl
  | withBlock =>
    match args with
    | [v] => cases hv : v.isEmpty <;> simp only [act, parts?, choose, hv] <;> exact hone _ _
    | [] | _ :: _ :: _ => rfl
  | ifBlock =>
    match args with
    | [v] => cases hv : v.isEmpty <;> simp only [act, parts?, choose, hv] <;> exact hone _ _
    | [] | _ :: _ :: _ => rfl
  | unlessBlock =>
    match args with
    | [v] => cases hv : v.isEmpty <;> simp only [act, parts?, hv] <;> exact hone _ _
    | [] | _ :: _ :: _ => rfl
  | eachBlock =>
    match args with
    | [v] => exact run_eachAction _ v
    | [] | _ :: _ :: _ => rfl
  | blockMissing =>
    match args with
    | [v] =>
      simp only [act, parts?, sectionAction]
      split_ifs
      · exact hone _ _
      · exact run_eachAction _ v
      · exact hone _ _
      · exact hone _ _
    | [] | _ :: _ :: _ => rfl
  | lookup =>
    match args with
    | [_, _] | [] | [_] | _ :: _ :: _ :: _ => rfl
  | log =>
    match args with
    | [_] | [] | _ :: _ :: _ => rfl
  | callMissing => rfl

end Builtin

namespace Renderer
variable {σ : Type} {r : Renderer σ} {b : Builtin} {this : Value} {args : List Value}

theorem invoke_some {parts : List Part} (h : b.parts? this args = some parts) (f : Frame)
    (render : Branch → Value → Option Object → Render σ String) :
    r.invoke f render (.builtin b) this args = do
      let text ← Render.parts (fun p => render p.branch p.context (p.round.map (·.write f.data))) parts
      return .string text := by
  refine (Builtin.run_act b (f.invocation this args)).trans ?_
  simp only [Frame.invocation, h]

theorem invoke_none (h : b.parts? this args = none) (f : Frame)
    (render : Branch → Value → Option Object → Render σ String) :
    r.invoke f render (.builtin b) this args =
      r.invoke f (fun _ _ _ => pure "") (.builtin b) this args := by
  refine (Builtin.run_act b (f.invocation this args)).trans ?_
  simp only [Frame.invocation, h]
  rfl

end Renderer

def Helper.parts? (h : Helper) (this : Value) (args : List Value) : Option (List Part) :=
  match h with
  | .builtin b => b.parts? this args
  | .custom _ => none

/-- What names lead to does not depend on what the value is a property of. -/
theorem Value.follow_snd (owner owner' v : Value) (names : List String) :
    (Value.follow owner v names).2 = (Value.follow owner' v names).2 := by
  cases names with
  | nil => rfl
  | cons name names =>
    rw [Value.follow, Value.follow]
    split <;> rfl

/-- Where rendering is: the context that each level around remembers, and the rounds around what is
just inside of the level. -/
structure Scope where
  /-- The innermost level and the innermost round first. -/
  levels : List (Value × List Round) := []
  context : Value
  seed : Object
  links : Dict Target
  hash : Object := ⟨[]⟩
  name : String := ""
  bodies : Option (List Item × List Item) := none

namespace Scope
variable {σ : Type}

def start (context : Value) (seed : Object) (links : Dict Target) : Scope where
  context := context
  seed := seed
  links := links

def rounds (s : Scope) : List Round := (s.levels.head?.map Prod.snd).getD []

def block (s : Scope) (this : Value) (name : String) (hash : Object)
    (bodies : Option (List Item × List Item)) (chained : Bool) : Scope :=
  { s with
    levels := (this, s.rounds) :: if chained then s.levels.tail else s.levels
    hash, name, bodies }

def during (s : Scope) : Option Round → Scope
  | none => s
  | some round =>
    match s.levels with
    | [] => s
    | (context, rounds) :: outer => { s with levels := (context, round :: rounds) :: outer }

def inclusion (s : Scope) (context : Value) (links : Dict Target) : Scope where
  levels := (context, s.rounds) :: s.levels
  context := s.context
  seed := s.seed
  links := links

/-- What `name` is bound to: by the innermost round that binds it, or else by the seed, and the root
is the context of the template. -/
def value (s : Scope) (name : String) : Value :=
  ((s.rounds.findSome? (·.bound? name)).or (s.seed.get? name)).getD
    (if name = "root" then s.context else .undefined)

def out (s : Scope) (up : Nat) : Scope := { s with levels := s.levels.drop up }

def data (s : Scope) (rounds : List Round) : Object :=
  rounds.foldr (fun round data => round.write data)
    (Dict.extend ⟨[("root", s.context)]⟩ s.seed.entries)

def place (s : Scope) : Place where
  levels := s.levels.map fun (context, rounds) => ⟨context, s.data rounds⟩
  rootData := s.data []
  links := s.links
  hash := s.hash
  name := s.name
  bodies := s.bodies

def frame (s : Scope) : Frame := s.place.frame

mutual

def renderItem (r : Renderer σ) (nested : Scope → Value → List Item → Render σ String)
    (s : Scope) (this : Value) : Item → Render σ String
  | .text text => pure text
  | .escaped e => do
    let v ← r.eval s.frame this e
    return v.escaped
  | .unescaped e => do
    let v ← r.eval s.frame this e
    return v.text
  | .block ⟨call, body, inverse, chained⟩ => do
    let (h, first) ← r.callee s.frame this call.name call.head
    let args ← r.evalArgs s.frame this call.args
    let hash ← r.evalHash s.frame this call.hash
    let inner := s.block this call.name (.ofList hash) (some (body, inverse)) chained
    let part (p : Part) : Render σ String :=
      match p.branch with
      | .main => render r nested (inner.during p.round) p.context body
      | .inverse => render r nested (inner.during p.round) p.context inverse
    match h.parts? this (first ++ args) with
    | some parts => Render.parts part parts
    | none => do
      let v ← r.invoke inner.frame (fun _ _ _ => pure "") h this (first ++ args)
      return v.text
  | .inclusion i =>
    match r.partial? s.links i.name with
    | none => throw (.missingPartial i.name)
    | some template => do
      let context ← r.inclusionContext s.frame this i
      nested (s.inclusion context template.links) context template.items

def render (r : Renderer σ) (nested : Scope → Value → List Item → Render σ String)
    (s : Scope) (this : Value) : List Item → Render σ String
  | [] => return ""
  | item :: items => do
    let text ← renderItem r nested s this item
    let rest ← render r nested s this items
    return text ++ rest

end

def renderNested (host : Host σ) (partial? : Dict Target → String → Option Template) :
    Nat → Scope → Value → List Item → Render σ String
  | 0 => render (renderer host partial? 0) fun _ _ _ => Render.tooDeep
  | depth + 1 =>
    render (renderer host partial? (depth + 1)) (renderNested host partial? depth)

theorem frame_start (context : Value) (seed : Object) (links : Dict Target) :
    (start context seed links).frame = Frame.root context seed links := rfl

theorem frame_links (s : Scope) : s.frame.links = s.links := s.place.frame_links

theorem place_data (s : Scope) : s.place.data = s.data s.rounds := by
  obtain ⟨levels, _⟩ := s
  cases levels <;> rfl

theorem frame_inclusion (s : Scope) (context : Value) (links : Dict Target) :
    (s.inclusion context links).frame = s.frame.included context links := by
  unfold frame
  rw [← Place.frame_inclusion]
  unfold Place.inclusion
  rw [place_data]
  rfl

theorem frame_block (s : Scope) (this : Value) (name : String) (hash : Object)
    (bodies : Option (List Item × List Item)) (chained : Bool) :
    (s.block this name hash bodies chained).frame =
      s.frame.enter this name hash bodies chained := by
  unfold frame
  rw [← Place.frame_block]
  unfold Place.block
  rw [place_data]
  obtain ⟨levels, _⟩ := s
  cases levels <;> cases chained <;> rfl

theorem frame_during (s : Scope) (this : Value) (name : String) (hash : Object)
    (bodies : Option (List Item × List Item)) (chained : Bool) (round : Option Round) :
    ((s.block this name hash bodies chained).during round).frame =
      (s.block this name hash bodies chained).frame.withData
        (round.map (·.write (s.block this name hash bodies chained).frame.data)) := by
  cases round with
  | none => rfl
  | some round => rfl

theorem get?_data (s : Scope) (hseed : s.seed.Distinct) (rounds : List Round) (name : String) :
    ((s.data rounds).get? name).getD .undefined =
      ((rounds.findSome? (·.bound? name)).or (s.seed.get? name)).getD
        (if name = "root" then s.context else .undefined) := by
  unfold data
  rw [Round.get?_writes, Dict.get?_extend _ hseed, ← Option.or_assoc]
  cases (rounds.findSome? (·.bound? name)).or (s.seed.get? name) with
  | some v => rfl
  | none =>
    change ((Dict.firstEntry name [("root", s.context)]).getD .undefined) = _
    simp only [Dict.firstEntry, eq_comm (a := "root")]
    split <;> rfl

/-- The data `up` levels out. -/
theorem walk_data (s : Scope) (up : Nat) :
    (s.frame.walk up).map Level.data =
      if up ≤ s.levels.length then some (s.data (s.out up).rounds) else none := by
  unfold Frame.walk frame
  rw [Place.levels_frame]
  change ((s.levels.map _ ++ _)[up]?).map Level.data = _
  rcases Nat.lt_trichotomy up s.levels.length with hlt | heq | hgt
  · rw [if_pos hlt.le, List.getElem?_append_left (by simpa using hlt), List.getElem?_map]
    unfold out rounds
    rw [List.head?_drop, List.getElem?_eq_getElem hlt]
    rfl
  · subst heq
    simp [out, rounds, place]
  · rw [if_neg (by omega), List.getElem?_eq_none (by simp; omega)]
    rfl

theorem refer_data (r : Renderer σ) (s : Scope) (hseed : s.seed.Distinct) (this : Value) (up : Nat)
    (name : String) (names : List String) (invoke : Bool) :
    r.refer s.frame this ⟨true, up, name :: names⟩ invoke =
      pure (Value.follow .undefined
        (if up ≤ s.levels.length then (s.out up).value name else .undefined) names).2 := by
  have hbase : s.frame.base this ⟨true, up, name :: names⟩ =
      (((s.frame.walk up).map Level.data).map Value.object).getD .undefined := by
    rw [Option.map_map]
    rfl
  unfold Renderer.refer Frame.find
  rw [hbase, walk_data]
  refine congrArg pure ?_
  by_cases hup : up ≤ s.levels.length
  · rw [if_pos hup, if_pos hup]
    change (Value.follow _ ((Dict.get? _ name).getD .undefined) names).2 = _
    rw [get?_data s hseed]
    exact Value.follow_snd _ _ _ _
  · rw [if_neg hup, if_neg hup]
    cases names <;> rfl

end Scope

/-- What comes after a computation matters only for results that it can have. -/
theorem Render.Agree.bind_congr {σ α β : Type} {R : α → α → Prop} {x : Render σ α}
    (h : x.Agree True R x) {f g : α → Render σ β} (hf : ∀ a, R a a → f a = g a) :
    x >>= f = x >>= g := by
  funext ⟨state, before⟩
  change (x ⟨state, before⟩ >>= _) = (x ⟨state, before⟩ >>= _)
  cases h with
  | tooDeep _ hx =>
    rw [hx state before]
    rfl
  | error hx =>
    rw [hx state before]
    rfl
  | ok hR hx hy =>
    cases (hx state before).symm.trans (hy state before)
    rw [hx state before]
    exact congrFun (hf _ hR) _

theorem Builtin.Offers.functionFree {this : Value} {args : List Value} {p : Part} {data : Object}
    (h : Offers this args p) (hthis : this.FunctionFree)
    (hargs : List.Forall₂ (Value.Resembles False True) args args)
    (hdata : data.Resembles False True data) :
    p.context.FunctionFree ∧ Option.Rel (Dict.Resembles False True) (p.round.map (·.write data))
      (p.round.map (·.write data)) := by
  cases h with
  | inverse => exact ⟨hthis, .none⟩
  | main => exact ⟨hthis, .none⟩
  | inside hv => exact ⟨List.forall₂_same.1 hargs _ hv, .none⟩
  | round hv hround =>
    have hrounds := rounds_resemble hdata (List.forall₂_same.1 hargs _ hv)
    rw [rounds_eq] at hrounds
    obtain ⟨hcontext, hround⟩ := List.forall₂_same.1 hrounds _ (List.mem_map_of_mem hround)
    exact ⟨hcontext, .some hround⟩

namespace Scope
variable {σ : Type} {r : Renderer σ} {nested : Scope → Value → List Item → Render σ String}
  {included : Template → Prop}

theorem links_during (s : Scope) (round : Option Round) : (s.during round).links = s.links := by
  obtain ⟨levels, _⟩ := s
  cases round <;> cases levels <;> rfl

mutual

theorem renderItem_eq (hr : r.Agrees False True True (fun _ => True) included r)
    (hnested : ∀ s context t, included t → s.links = t.links → s.frame.FunctionFree →
      context.FunctionFree → nested s context t.items = r.nested s.frame context t.items)
    (s : Scope) (hs : s.frame.FunctionFree) (this : Value) (hthis : this.FunctionFree) :
    (item : Item) → item.Fits False (fun _ => True) →
      (∀ name ∈ item.includes, ∀ t, r.partial? s.links name = some t → included t) →
        renderItem r nested s this item = r.renderItem s.frame this item
  | .text text, _, _ => by rw [renderItem, Renderer.renderItem]
  | .escaped e, _, _ => by rw [renderItem, Renderer.renderItem]
  | .unescaped e, _, _ => by rw [renderItem, Renderer.renderItem]
  | .block ⟨call, body, inverse, chained⟩, hitem, hnames => by
    cases hitem with
    | block hhead hargs hhash hbody hinverse =>
      rw [Item.includes] at hnames
      rw [renderItem, Renderer.renderItem]
      refine (Renderer.callee_agrees hs hthis call.name hhead).bind_congr fun ⟨h, first⟩ hcallee => ?_
      obtain ⟨⟨b, rfl, -⟩, hfirst⟩ := hcallee
      refine (Renderer.evalArgs_agrees cleanly_true hs hthis _ hargs).bind_congr fun vs hvs => ?_
      refine (Renderer.evalHash_agrees cleanly_true hs hthis _ hhash).bind_congr fun hash hhash => ?_
      dsimp only
      rw [← frame_block]
      have hinner := hs.enter hthis call.name (.ofList hhash) (some (body, inverse)) chained
      rw [← frame_block] at hinner
      have hargs' : List.Forall₂ (Value.Resembles False True) (first ++ vs) (first ++ vs) :=
        List.rel_append hfirst hvs
      generalize first ++ vs = args at hargs' ⊢
      cases hparts : b.parts? this args with
      | none => simp only [Helper.parts?, hparts, Renderer.invoke_none hparts]
      | some parts =>
        simp only [Helper.parts?, hparts, Renderer.invoke_some hparts, bind_assoc, pure_bind, Value.text,
          bind_pure]
        refine Render.parts_congr fun p hp => ?_
        obtain ⟨hcontext, hdata⟩ := (Builtin.parts_offers hparts p hp).functionFree hthis hargs'
          hinner.level.data
        have hround := hinner.withData hdata
        rw [← frame_during] at hround ⊢
        cases p.branch with
        | main =>
          refine render_eq hr hnested _ hround p.context hcontext body hbody fun name hname t ht => ?_
          rw [links_during] at ht
          exact hnames name (List.mem_append_left _ hname) t ht
        | inverse =>
          refine render_eq hr hnested _ hround p.context hcontext inverse hinverse
            fun name hname t ht => ?_
          rw [links_during] at ht
          exact hnames name (List.mem_append_right _ hname) t ht
  | .inclusion i, hitem, hnames => by
    cases hitem with
    | inclusion hargs hhash =>
      rw [renderItem, Renderer.renderItem, Renderer.renderInclusion, frame_links]
      cases ht : r.partial? s.links i.name with
      | none => rfl
      | some t =>
        refine (Renderer.inclusionContext_agrees cleanly_true hs hthis hargs hhash).bind_congr
          fun context hcontext => ?_
        rw [← frame_inclusion]
        refine hnested _ context t (hnames i.name List.mem_cons_self t ht) rfl ?_ hcontext
        rw [frame_inclusion]
        exact hs.included hcontext t.links

theorem render_eq (hr : r.Agrees False True True (fun _ => True) included r)
    (hnested : ∀ s context t, included t → s.links = t.links → s.frame.FunctionFree →
      context.FunctionFree → nested s context t.items = r.nested s.frame context t.items)
    (s : Scope) (hs : s.frame.FunctionFree) (this : Value) (hthis : this.FunctionFree) :
    (items : List Item) → (∀ item ∈ items, item.Fits False (fun _ => True)) →
      (∀ name ∈ includes items, ∀ t, r.partial? s.links name = some t → included t) →
        render r nested s this items = r.render s.frame this items
  | [], _, _ => by rw [render, Renderer.render]
  | item :: items, hitems, hnames => by
    rw [includes] at hnames
    obtain ⟨hitem, hitems⟩ := List.forall_mem_cons.1 hitems
    rw [render, Renderer.render, renderItem_eq hr hnested s hs this hthis item hitem
      fun name hname => hnames name (List.mem_append_left _ hname),
      render_eq hr hnested s hs this hthis items hitems
        fun name hname => hnames name (List.mem_append_right _ hname)]

end

/-- However deep inclusions nest. -/
theorem renderNested_eq {partial? : Dict Target → String → Option Template}
    (hincluded : ∀ t, included t → (∀ item ∈ t.items, item.Fits False fun _ => True) ∧
      ∀ name ∈ includes t.items, ∀ u, partial? t.links name = some u → included u)
    (host : Host σ) (depth : Nat) (s : Scope) (context : Value) (t : Template) (ht : included t)
    (hlinks : s.links = t.links) (hs : s.frame.FunctionFree) (hcontext : context.FunctionFree) :
    renderNested host partial? depth s context t.items =
      (renderer host partial? depth).render s.frame context t.items := by
  induction depth generalizing s context t with
  | zero =>
    obtain ⟨hitems, hnames⟩ := hincluded t ht
    rw [← hlinks] at hnames
    exact render_eq (renderer_agrees cleanly_true hincluded host host 0) (fun _ _ _ _ _ _ _ => rfl)
      s hs context hcontext t.items hitems hnames
  | succ depth ih =>
    obtain ⟨hitems, hnames⟩ := hincluded t ht
    rw [← hlinks] at hnames
    exact render_eq (renderer_agrees cleanly_true hincluded host host (depth + 1)) ih
      s hs context hcontext t.items hitems hnames

end Scope

/-- A template of built-in blocks and of inclusions is rendered from scope to scope, where no body but
the main one is ever in a round. In each scope local data is what the innermost round around binds, and
else what is in the seed, and else the root; behind parent steps it is what is seen just inside of the
level that they lead to, down to the root data outside of all levels, and nothing further out. -/
theorem Template.render_scopes {σ : Type} {d : Dialect} (hd : d.BuiltinsOnly) {t : Template}
    (ht : ∀ item ∈ t.items, item.From d) {partial? : Dict Target → String → Option Template}
    (hpartials : ∀ links name u, partial? links name = some u → ∀ item ∈ u.items, item.From d)
    (host : Host σ) (depth : Nat) {context : Value} (hcontext : context.FunctionFree) {seed : Object}
    (hseed : ∀ entry ∈ seed.entries, entry.2.FunctionFree) (hdistinct : seed.Distinct) :
    t.render host partial? depth context seed =
        Scope.renderNested host partial? depth (.start context seed t.links) context t.items ∧
      (∀ (b : Builtin) (this : Value) (args : List Value) (parts : List Part),
        b.parts? this args = some parts → ∀ p ∈ parts, p.branch = .inverse →
          p.context = this ∧ p.round = none) ∧
      ∀ (r : Renderer σ) (s : Scope), s.seed = seed →
        ∀ (this : Value) (up : Nat) (name : String) (names : List String) (invoke : Bool),
          r.refer s.frame this ⟨true, up, name :: names⟩ invoke =
            pure (Value.follow .undefined
              (if up ≤ s.levels.length then (s.out up).value name else .undefined) names).2 := by
  refine ⟨?_, fun b this args parts hparts p hp hbranch => ?_,
    fun r s hs this up name names invoke => ?_⟩
  · have hincluded (u : Template) (hu : ∀ item ∈ u.items, item.From d) :
        (∀ item ∈ u.items, item.Fits False fun _ => True) ∧
          ∀ name ∈ includes u.items, ∀ v, partial? u.links name = some v → ∀ item ∈ v.items, item.From d :=
      ⟨fun item hitem => (hu item hitem).fits_all hd False.elim,
        fun name _ v hv => hpartials u.links name v hv⟩
    have hseed' : seed.Resembles False True seed :=
      List.forall₂_same.2 fun entry hentry => .mk entry.1 (hseed entry hentry)
    exact (Scope.renderNested_eq hincluded host depth (.start context seed t.links) context t ht rfl
      (.root hcontext hseed' t.links) hcontext).symm
  · cases Builtin.parts_offers hparts p hp with
    | inverse => exact ⟨rfl, rfl⟩
    | _ => cases hbranch
  · subst hs
    exact s.refer_data r hdistinct this up name names invoke

theorem Catalog.from_of_compile {c : Catalog} {source : String} {t : Template}
    (h : c.compile source = .ok t) : ∀ item ∈ t.items, item.From c.dialect := by
  unfold compile at h
  cases hcheck : (Outline.ofSource c.dialect source).check source fun name =>
      .ok (c.sources.get? name).isSome with
  | error e => rw [hcheck] at h; cases h
  | ok items =>
    rw [hcheck] at h
    cases h
    exact Outline.read_from {} false 0 source.toList ⟨nofun, nofun⟩ items
      (Outline.check_eq_ok_iff.1 hcheck).2

def keyListing : Template where
  source := "\x7b\x7b#each xs\x7d\x7d\x7b\x7b@key\x7d\x7d\x7b\x7b> mark\x7d\x7d\x7b\x7b/each\x7d\x7d\x7b\x7b@key\x7d\x7d"
  items := [
    .block
      { call := ⟨"each", .helper (.builtin .eachBlock), [.reference ⟨false, 0, ["xs"]⟩ true], []⟩
        body := [.escaped (.reference ⟨true, 0, ["key"]⟩ true), .inclusion ⟨"mark", [], []⟩]
        inverse := []
        chained := false },
    .escaped (.reference ⟨true, 0, ["key"]⟩ true)]
  links := ⟨[]⟩

def keyMark : Template where
  source := "\x7b\x7b#if @../first\x7d\x7d!\x7b\x7b/if\x7d\x7d"
  items := [.block
    { call := ⟨"if", .helper (.builtin .ifBlock), [.reference ⟨true, 1, ["first"]⟩ true], []⟩
      body := [.text "!"]
      inverse := []
      chained := false }]
  links := ⟨[]⟩

def keyCatalog : Catalog where
  dialect := { helpers := Builtin.registry }
  sources := ⟨[("mark", keyMark.source)]⟩

theorem compile_keyListing : keyCatalog.compile keyListing.source = .ok keyListing := by cbv

theorem compile_keyMark : keyCatalog.compile keyMark.source = .ok keyMark := by cbv

def keyPartial? (_ : Dict Target) (name : String) : Option Template :=
  if name = "mark" then some keyMark else none

def keyContext : Value := .object ⟨[("xs", .object ⟨[("a", .null), ("b", .null)]⟩)]⟩

theorem renderNested_keyListing (host : Host Unit) :
    (Scope.renderNested host keyPartial? 1 (.start keyContext ⟨[]⟩ keyListing.links) keyContext
      keyListing.items).result ⟨(), []⟩ = some (.ok "a!b") := rfl

/-- The first round is seen through the level of the inclusion, and no round behind the block. -/
theorem Template.render_scopes_keyListing :
    keyCatalog.dialect.BuiltinsOnly ∧ (∀ item ∈ keyListing.items, item.From keyCatalog.dialect) ∧
      (∀ links name u, keyPartial? links name = some u →
        ∀ item ∈ u.items, item.From keyCatalog.dialect) ∧
      keyContext.FunctionFree ∧ (⟨[]⟩ : Object).Distinct ∧
      ∀ host : Host Unit, (keyListing.render host keyPartial? 1 keyContext ⟨[]⟩).result ⟨(), []⟩ =
        some (.ok "a!b") := by
  have hbuiltins : keyCatalog.dialect.BuiltinsOnly := fun _ _ h => h
  have hitems := Catalog.from_of_compile compile_keyListing
  have hpartials (links : Dict Target) (name : String) (u : Template)
      (h : keyPartial? links name = some u) : ∀ item ∈ u.items, item.From keyCatalog.dialect := by
    unfold keyPartial? at h
    split at h <;> cases h
    exact Catalog.from_of_compile compile_keyMark
  have hcontext : keyContext.FunctionFree :=
    .object (.cons (.mk "xs" (.object (.cons (.mk "a" .null) (.cons (.mk "b" .null) .nil)))) .nil)
  have hdistinct : (⟨[]⟩ : Object).Distinct := List.nodup_nil
  refine ⟨hbuiltins, hitems, hpartials, hcontext, hdistinct, fun host => ?_⟩
  rw [(render_scopes hbuiltins hitems hpartials host 1 hcontext (List.forall_mem_nil _) hdistinct).1]
  exact renderNested_keyListing host

end Stencil
