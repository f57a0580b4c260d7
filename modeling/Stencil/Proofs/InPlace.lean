import Stencil.Proofs.ByName
import Stencil.Proofs.Sight

set_option autoImplicit false

/-!
# Partials in place

Items whose references go up no further than the levels that they stand inside of look no further out
than the data around them. So what an inclusion without arguments renders is what the items of the
template render in its place.
-/
namespace Stencil

def Item.references : Item → List Reference
  | .text _ => []
  | .escaped e | .unescaped e => e.references
  | .block b => b.call.references
  | .inclusion i => i.references

mutual

/-- An item that stands inside of `k` levels and the items inside of it, each with the number of
levels that it stands inside of. A block is one level, unless it shares that of the block it
extends. -/
def Item.standing (k : Nat) : Item → List (Nat × Item)
  | .block ⟨call, body, inverse, chained⟩ =>
    (k, .block ⟨call, body, inverse, chained⟩) ::
      (standing (if chained then k else k + 1) body ++
        standing (if chained then k else k + 1) inverse)
  | .text text => [(k, .text text)]
  | .escaped e => [(k, .escaped e)]
  | .unescaped e => [(k, .unescaped e)]
  | .inclusion i => [(k, .inclusion i)]

def standing (k : Nat) : List Item → List (Nat × Item)
  | [] => []
  | item :: items => item.standing k ++ standing k items

end

section
variable {partial? : Dict Target → String → Option Template} {links : Dict Target} {k k' n : Nat}
  {items items' : List Item} {item : Item}

theorem Item.mem_standing (k : Nat) (item : Item) : (k, item) ∈ item.standing k := by
  cases item <;> simp [Item.standing]

/-- The items that are rendered for the given ones, which stand inside of `k` levels: these and the
ones inside of them, and the items of what they include. An inclusion is one level. -/
inductive Reaches (partial? : Dict Target → String → Option Template) :
    Nat → Dict Target → List Item → Nat → Item → Prop
  | here {k n : Nat} {links : Dict Target} {items : List Item} {item : Item}
    (h : (n, item) ∈ standing k items) : Reaches partial? k links items n item
  | inclusion {k m n : Nat} {links : Dict Target} {items : List Item} {item : Item} {i : Inclusion}
    {t : Template} (h : (m, .inclusion i) ∈ standing k items) (ht : partial? links i.name = some t)
    (hreach : Reaches partial? (m + 1) t.links t.items n item) : Reaches partial? k links items n item

def StaysInside (partial? : Dict Target → String → Option Template) (k : Nat) (links : Dict Target)
    (items : List Item) : Prop :=
  ∀ n item, Reaches partial? k links items n item → ∀ ref ∈ item.references, ref.up ≤ n

namespace StaysInside

theorem mono (h : StaysInside partial? k links items)
    (hsub : ∀ p ∈ standing k' items', p ∈ standing k items) :
    StaysInside partial? k' links items' := by
  intro n item hreach
  cases hreach with
  | here hitem => exact h n item (.here (hsub _ hitem))
  | inclusion hi ht hreach => exact h n item (.inclusion (hsub _ hi) ht hreach)

/-- What is included is looked at one level further in. -/
theorem of_standing (hitems : ∀ p ∈ standing k items, ∀ ref ∈ p.2.references, ref.up ≤ p.1)
    (hincluded : ∀ m i, (m, .inclusion i) ∈ standing k items → ∀ t, partial? links i.name = some t →
      StaysInside partial? (m + 1) t.links t.items) : StaysInside partial? k links items := by
  intro n item hreach
  cases hreach with
  | here hitem => exact hitems _ hitem
  | inclusion hi ht hreach => exact hincluded _ _ hi _ ht n item hreach

theorem nil (k : Nat) (links : Dict Target) : StaysInside partial? k links [] :=
  of_standing nofun nofun

theorem head (h : StaysInside partial? k links (item :: items)) :
    StaysInside partial? k links [item] :=
  h.mono fun p hp => by
    simp only [standing, List.append_nil, List.mem_append] at hp ⊢
    exact .inl hp

theorem tail (h : StaysInside partial? k links (item :: items)) :
    StaysInside partial? k links items :=
  h.mono fun p hp => by
    simp only [standing, List.mem_append]
    exact .inr hp

theorem references (h : StaysInside partial? k links [item]) : ∀ ref ∈ item.references, ref.up ≤ k :=
  h k item (.here (List.mem_append_left _ (item.mem_standing k)))

theorem included {i : Inclusion} {t : Template} (h : StaysInside partial? k links [.inclusion i])
    (ht : partial? links i.name = some t) : StaysInside partial? (k + 1) t.links t.items :=
  fun n item hreach =>
    h n item (.inclusion (List.mem_append_left _ (Item.mem_standing k _)) ht hreach)

theorem body {b : Block Item} (h : StaysInside partial? k links [.block b]) :
    StaysInside partial? (if b.chained then k else k + 1) links b.body :=
  h.mono fun p hp => by
    simp only [standing, Item.standing, List.append_nil, List.mem_cons, List.mem_append]
    exact .inr (.inl hp)

theorem inverse {b : Block Item} (h : StaysInside partial? k links [.block b]) :
    StaysInside partial? (if b.chained then k else k + 1) links b.inverse :=
  h.mono fun p hp => by
    simp only [standing, Item.standing, List.append_nil, List.mem_cons, List.mem_append]
    exact .inr (.inr hp)

end StaysInside
end

/-- The same innermost levels, and around these the same data. What is further out is left open. -/
inductive SameLevels : Nat → List Level → List Level → Prop
  | here {l l' : Level} (h : l.data = l'.data) (outer outer' : List Level) :
    SameLevels 0 (l :: outer) (l' :: outer')
  | inside {k : Nat} {outer outer' : List Level} (l : Level) (h : SameLevels k outer outer') :
    SameLevels (k + 1) (l :: outer) (l :: outer')

namespace SameLevels
variable {k : Nat} {levels levels' : List Level}

theorem data (h : SameLevels k levels levels') {n : Nat} (hn : n ≤ k) :
    (levels[n]?).map Level.data = (levels'[n]?).map Level.data := by
  induction h generalizing n with
  | here h =>
    cases Nat.le_zero.1 hn
    simp [h]
  | inside l _ ih =>
    cases n with
    | zero => rfl
    | succ n => exact ih (by omega)

theorem context (h : SameLevels k levels levels') {n : Nat} (hn : n < k) :
    (levels[n]?).map Level.context = (levels'[n]?).map Level.context := by
  induction h generalizing n with
  | here => cases hn
  | inside l _ ih =>
    cases n with
    | zero => rfl
    | succ n => exact ih (by omega)

end SameLevels

namespace Frame
variable {f f' : Frame} {k : Nat} {partial? : Dict Target → String → Option Template}

structure Shares (k : Nat) (f f' : Frame) : Prop where
  levels : SameLevels k f.levels f'.levels
  links : f.links = f'.links

/-- Frames with the same call as well, whose bodies do not see further either. -/
structure Coincides (partial? : Dict Target → String → Option Template) (k : Nat) (f f' : Frame) :
    Prop extends Shares k f f' where
  hash : f.hash = f'.hash
  name : f.name = f'.name
  bodies : f.bodies = f'.bodies
  inside : ∀ branch, StaysInside partial? k f.links (f.body branch)

namespace Shares

theorem data (h : f.Shares k f') : f.data = f'.data :=
  Option.some.inj (h.levels.data (Nat.zero_le k))

theorem find (h : f.Shares k f') (this : Value) {ref : Reference} (href : ref.up ≤ k) :
    f.find this ref = f'.find this ref := by
  obtain ⟨data, up, names⟩ := ref
  change up ≤ k at href
  have hdata := h.levels.data href
  unfold Frame.find
  congr 1
  cases data with
  | true =>
    have hobject := congrArg (Option.map Value.object) hdata
    simp only [Option.map_map] at hobject
    exact congrArg (Option.getD · .undefined) hobject
  | false =>
    cases up with
    | zero => rfl
    | succ up => exact congrArg (Option.getD · .undefined) (h.levels.context href)

/-- A block is entered with the same context, and takes the data along. -/
theorem enter (h : f.Shares k f') (this : Value) (name : String) (hash : Object)
    (bodies : Option (List Item × List Item)) (chained : Bool) :
    (f.enter this name hash bodies chained).Shares (if chained then k else k + 1)
      (f'.enter this name hash bodies chained) := by
  refine ⟨?_, h.links⟩
  cases chained with
  | false =>
    unfold Frame.enter Frame.levels
    rw [h.data]
    exact .inside _ h.levels
  | true =>
    have hlevels := h.levels
    unfold Frame.enter
    rw [h.data]
    unfold Frame.levels at hlevels ⊢
    generalize f.toLevel = l, f.outer = outer, f'.toLevel = l', f'.outer = outer' at hlevels ⊢
    cases hlevels with
    | here => exact .here rfl _ _
    | inside _ houter =>
      cases houter with
      | here hdata => exact .inside _ (.here hdata _ _)
      | inside l hlevels => exact .inside _ (.inside l hlevels)

theorem included (h : f.Shares k f') (context : Value) (links : Dict Target) :
    (f.included context links).Shares (k + 1) (f'.included context links) := by
  refine ⟨?_, rfl⟩
  unfold Frame.included Frame.levels
  rw [h.data]
  exact .inside _ h.levels

end Shares

namespace Coincides

theorem withData (h : f.Coincides partial? k f') (data : Option Object) :
    (f.withData data).Coincides partial? k (f'.withData data) := by
  cases data with
  | none => exact h
  | some data =>
    refine ⟨⟨?_, h.links⟩, h.hash, h.name, h.bodies, h.inside⟩
    have hlevels := h.levels
    obtain ⟨level, _, _, _, _, outer⟩ := f
    obtain ⟨level', _, _, _, _, outer'⟩ := f'
    cases hlevels with
    | here =>
      refine .here ?_ _ _
      rfl
    | inside l h => exact .inside _ h

theorem body (h : f.Coincides partial? k f') (branch : Branch) : f.body branch = f'.body branch := by
  cases branch <;> simp [Frame.body, h.bodies]

theorem invocation (h : f.Coincides partial? k f') (this : Value) (args : List Value) :
    f.invocation this args = f'.invocation this args := by
  simp [Frame.invocation, h.hash, h.name, h.bodies, h.data]

end Coincides

/-- The bodies of a block that is entered are inside of it. -/
theorem Shares.coincides (h : f.Shares k f') (this : Value) (name : String) (hash : Object)
    {body inverse : List Item} {chained : Bool}
    (hbody : StaysInside partial? (if chained then k else k + 1) f.links body)
    (hinverse : StaysInside partial? (if chained then k else k + 1) f.links inverse) :
    (f.enter this name hash (some (body, inverse)) chained).Coincides partial?
      (if chained then k else k + 1) (f'.enter this name hash (some (body, inverse)) chained) := by
  refine ⟨h.enter this name hash _ chained, rfl, rfl, rfl, fun branch => ?_⟩
  cases branch with
  | main => exact hbody
  | inverse => exact hinverse

theorem Shares.coincides_bare (h : f.Shares k f') (hbodies : f.bodies = none)
    (hsame : f.hash = f'.hash ∧ f.name = f'.name ∧ f'.bodies = none) : f.Coincides partial? k f' := by
  obtain ⟨hhash, hname, hbodies'⟩ := hsame
  refine ⟨h, hhash, hname, hbodies.trans hbodies'.symm, fun branch => ?_⟩
  have hnil : f.body branch = [] := by
    cases branch <;> simp [Frame.body, hbodies]
  rw [hnil]
  exact .nil k f.links

end Frame

section
variable {σ : Type} {r : Renderer σ} {partial? : Dict Target → String → Option Template}
  {f f' : Frame} {k : Nat}

/-- A renderer whose nested renderings do the same for frames that coincide. -/
structure Renderer.Local (partial? : Dict Target → String → Option Template) (r : Renderer σ) :
    Prop where
  partials : r.partial? = partial?
  nested : ∀ {k f f'} this {items}, Frame.Coincides partial? k f f' →
    StaysInside partial? k f.links items → r.nested f this items = r.nested f' this items
  nestedCall : ∀ {k f f'} h this args, Frame.Coincides partial? k f f' →
    r.nestedCall f h this args = r.nestedCall f' h this args

namespace Renderer.Local

theorem invoke (hr : r.Local partial?) (h : f.Coincides partial? k f')
    {render render' : Branch → Value → Option Object → Render σ String} (hrender : render = render')
    (g : Helper) (this : Value) (args : List Value) :
    r.invoke f render g this args = r.invoke f' render' g this args := by
  subst hrender
  unfold Renderer.invoke
  rw [h.invocation]
  refine congrArg (Action.run _ · _) ?_
  funext g this args
  exact hr.nestedCall g this args h

theorem call (hr : r.Local partial?) (h : f.Shares k f') (name : String) (hash : Object) (g : Helper)
    (this : Value) (args : List Value) :
    r.invoke (f.enter this name hash none false) (fun _ _ _ => pure "") g this args =
      r.invoke (f'.enter this name hash none false) (fun _ _ _ => pure "") g this args :=
  hr.invoke ((h.enter this name hash none false).coincides_bare rfl ⟨rfl, rfl, rfl⟩) rfl g this args

theorem sees (hr : r.Local partial?) (h : f.Coincides partial? k f') (this : Value) :
    r.Sees (fun ref => ref.up ≤ k) f f' this where
  refer ref href invoke := by
    have hcall (owner : Value) (g : Helper) := hr.nestedCall g owner [] h
    unfold refer
    rw [h.find this href]
    simp only [hcall]
  call name hash g args := hr.call h.toShares name hash g this args

mutual

/-- Items that stay inside their levels render the same for frames that share these. -/
theorem renderItem (hr : r.Local partial?) {k : Nat} {f f' : Frame} (h : f.Shares k f') {this : Value}
    (hsees : r.Sees (fun ref => ref.up ≤ k) f f' this) :
    (item : Item) → StaysInside partial? k f.links [item] →
      r.renderItem f this item = r.renderItem f' this item
  | .text text, _ => by rw [Renderer.renderItem, Renderer.renderItem]
  | .escaped e, hitem => by
    rw [Renderer.renderItem, Renderer.renderItem, hsees.eval e hitem.references]
  | .unescaped e, hitem => by
    rw [Renderer.renderItem, Renderer.renderItem, hsees.eval e hitem.references]
  | .block ⟨call, body, inverse, chained⟩, hitem => by
    have hrefs := hitem.references
    simp only [Item.references, Call.references, List.forall_mem_append, Option.mem_toList] at hrefs
    obtain ⟨hhead, hargs, hhash⟩ := hrefs
    rw [Renderer.renderItem, Renderer.renderItem, hsees.callee call.name call.head hhead,
      hsees.evalArgs call.args hargs, hsees.evalHash call.hash hhash]
    refine bind_congr fun ⟨g, first⟩ => bind_congr fun args => bind_congr fun hash => ?_
    have hinner := h.coincides this call.name (.ofList hash) hitem.body hitem.inverse
    refine congrArg (· >>= _) (hr.invoke hinner ?_ g this (first ++ args))
    funext branch context data
    have hdata := hinner.withData data
    cases branch with
    | main => exact hr.render hdata.toShares (hr.sees hdata context) body hitem.body
    | inverse => exact hr.render hdata.toShares (hr.sees hdata context) inverse hitem.inverse
  | .inclusion i, hitem => by
    rw [Renderer.renderItem, Renderer.renderItem, Renderer.renderInclusion, Renderer.renderInclusion,
      hsees.inclusionContext i hitem.references, ← h.links, hr.partials]
    cases ht : partial? f.links i.name with
    | none => rfl
    | some t =>
      refine bind_congr fun context => ?_
      exact hr.nested context
        ((h.included context t.links).coincides_bare rfl ⟨rfl, rfl, rfl⟩) (hitem.included ht)

theorem render (hr : r.Local partial?) {k : Nat} {f f' : Frame} (h : f.Shares k f') {this : Value}
    (hsees : r.Sees (fun ref => ref.up ≤ k) f f' this) :
    (items : List Item) → StaysInside partial? k f.links items →
      r.render f this items = r.render f' this items
  | [], _ => by rw [Renderer.render, Renderer.render]
  | item :: items, hitems => by
    rw [Renderer.render, Renderer.render, hr.renderItem h hsees item hitems.head,
      hr.render h hsees items hitems.tail]

end

theorem callAnew (hr : r.Local partial?) (h : f.Coincides partial? k f') (g : Helper) (this : Value)
    (args : List Value) : r.callAnew f g this args = r.callAnew f' g this args := by
  refine hr.invoke h ?_ g this args
  funext branch context data
  rw [← h.body]
  exact hr.nested context (h.withData data) (h.inside branch)

end Renderer.Local

/-- However deep renderings may nest. -/
theorem renderer_local (host : Host σ) (partial? : Dict Target → String → Option Template)
    (depth : Nat) : (renderer host partial? depth).Local partial? := by
  induction depth with
  | zero => exact ⟨rfl, fun _ _ _ _ => rfl, fun _ _ _ _ => rfl⟩
  | succ depth ih =>
    exact ⟨rfl, fun this items h hitems => ih.render h.toShares (ih.sees h this) items hitems,
      fun g this args h => ih.callAnew h g this args⟩

/-- Where nothing is a function, frames need not have the same call. -/
theorem Renderer.Local.sees_of_functionFree (hr : r.Local partial?) (h : f.Shares 0 f') {this : Value}
    (hthis : this.FunctionFree) (hdata : (Value.object f.data).FunctionFree) :
    r.Sees (fun ref => ref.up ≤ 0) f f' this where
  refer ref href invoke := by
    refine refer_of_functionFree ref invoke (h.find this href) ?_
    have hbase : (f.base this ref).FunctionFree := by
      obtain ⟨data, up, names⟩ := ref
      cases Nat.le_zero.1 href
      cases data with
      | true => exact hdata
      | false => exact hthis
    exact (Value.Resembles.follow .undefined hbase ref.names).2
  call name hash g args := hr.call h name hash g this args

/-- An inclusion without arguments renders the items of the template as one level more. -/
theorem Renderer.renderItem_inclusion {name : String} {t : Template}
    (ht : r.partial? f.links name = some t) (this : Value) :
    r.renderItem f this (.inclusion ⟨name, [], []⟩) =
      r.nested (f.included this t.links) this t.items := by
  rw [Renderer.renderItem, Renderer.renderInclusion, ht]
  rfl

/-- An inclusion without arguments does what the items of the template do in its place, in the same
context and frame, where the names in them lead to what they lead to in the template. So it depends on
nothing in the frame but its data. -/
theorem Template.render_inPlace (host : Host σ) {t : Template}
    (hinside : StaysInside partial? 0 t.links t.items) (f : Frame) {name : String}
    (ht : partial? f.links name = some t) {this : Value} (hthis : this.FunctionFree)
    (hdata : (Value.object f.data).FunctionFree) :
    (∀ depth, (renderer host partial? (depth + 1)).renderItem f this (.inclusion ⟨name, [], []⟩) =
      (renderer host partial? depth).render (f.relink t.links) this t.items) ∧
    ∀ g : Frame, g.data = f.data → partial? g.links name = some t → ∀ depth,
      (renderer host partial? depth).renderItem g this (.inclusion ⟨name, [], []⟩) =
        (renderer host partial? depth).renderItem f this (.inclusion ⟨name, [], []⟩) := by
  have hsame (depth : Nat) (g g' : Frame) (hlinks : g.links = t.links ∧ g'.links = t.links)
      (hg : g.data = f.data) (hg' : g'.data = f.data) :
      (renderer host partial? depth).render g this t.items =
        (renderer host partial? depth).render g' this t.items := by
    have hr := renderer_local host partial? depth
    have hshares : g.Shares 0 g' :=
      ⟨.here (hg.trans hg'.symm) _ _, hlinks.1.trans hlinks.2.symm⟩
    refine hr.render hshares (hr.sees_of_functionFree hshares hthis ?_) t.items ?_
    · rw [hg]
      exact hdata
    · rw [hlinks.1]
      exact hinside
  refine ⟨fun depth => ?_, fun g hg ht' depth => ?_⟩
  · rw [Renderer.renderItem_inclusion ht]
    exact hsame depth _ _ ⟨rfl, rfl⟩ rfl rfl
  · have hpartials := (renderer_local host partial? depth).partials
    rw [Renderer.renderItem_inclusion (by rw [hpartials]; exact ht'),
      Renderer.renderItem_inclusion (by rw [hpartials]; exact ht)]
    cases depth with
    | zero => rfl
    | succ depth => exact hsame depth _ _ ⟨rfl, rfl⟩ hg rfl

end

def pointRow : Template where
  source := "\x7b\x7b#with point\x7d\x7d\x7b\x7bx\x7d\x7d\x7b\x7b> unit\x7d\x7d\x7b\x7b/with\x7d\x7d"
  items := [.block
    { call := ⟨"with", .helper (.builtin .withBlock), [.reference ⟨false, 0, ["point"]⟩ true], []⟩
      body := [.escaped (.reference ⟨false, 0, ["x"]⟩ true), .inclusion ⟨"unit", [], []⟩]
      inverse := []
      chained := false }]
  links := ⟨[]⟩

def pointUnit : Template where
  source := "\x7b\x7b../../unit\x7d\x7d"
  items := [.escaped (.reference ⟨false, 2, ["unit"]⟩ true)]
  links := ⟨[]⟩

def pointCatalog : Catalog where
  dialect := { helpers := Builtin.registry }
  sources := ⟨[("row", pointRow.source), ("unit", pointUnit.source)]⟩

theorem compile_pointRow : pointCatalog.compile pointRow.source = .ok pointRow := by cbv

theorem compile_pointUnit : pointCatalog.compile pointUnit.source = .ok pointUnit := by cbv

theorem staysInside_pointRow :
    StaysInside pointCatalog.partial? 0 pointRow.links pointRow.items := by
  have hunit : pointCatalog.partial? pointRow.links "unit" = some pointUnit :=
    congrArg Except.toOption compile_pointUnit
  refine .of_standing (by decide) fun m i hi t ht => ?_
  simp only [pointRow, standing, Item.standing, List.mem_append, List.mem_cons, Prod.mk.injEq,
    List.not_mem_nil, reduceCtorEq, and_false, false_or, or_false, Item.inclusion.injEq] at hi
  obtain ⟨rfl, rfl⟩ := hi
  cases hunit.symm.trans ht
  exact .of_standing (by decide) fun m i hi => by simp [pointUnit, standing, Item.standing] at hi

/-- The unit comes from two levels above the inner partial, and these are levels of the outer one. -/
theorem Template.render_inPlace_pointRow :
    let host : Host Unit := fun _ _ => .done .null
    let f := (Frame.root .null ⟨[]⟩ ⟨[]⟩).enter (.string "above") "if" ⟨[]⟩ none false
    let this : Value := .object ⟨[("point", .object ⟨[("x", .string "1")]⟩), ("unit", .string "m")]⟩
    StaysInside pointCatalog.partial? 0 pointRow.links pointRow.items ∧
      pointCatalog.partial? f.links "row" = some pointRow ∧ this.FunctionFree ∧
      (Value.object f.data).FunctionFree ∧
      ((renderer host pointCatalog.partial? 3).renderItem f this (.inclusion ⟨"row", [], []⟩)).result
        ⟨(), []⟩ = some (.ok "1m") := by
  intro host f this
  have hrow : pointCatalog.partial? f.links "row" = some pointRow :=
    congrArg Except.toOption compile_pointRow
  have hthis : this.FunctionFree :=
    .object (.cons (.mk "point" (.object (.cons (.mk "x" (.string _)) .nil)))
      (.cons (.mk "unit" (.string _)) .nil))
  have hdata : (Value.object f.data).FunctionFree := .object (.cons (.mk "root" .null) .nil)
  refine ⟨staysInside_pointRow, hrow, hthis, hdata, ?_⟩
  rw [(render_inPlace host staysInside_pointRow f hrow hthis hdata).1 2]
  cbv

end Stencil
