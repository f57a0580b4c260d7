import Stencil.Proofs.Concatenation

set_option autoImplicit false

/-!
# What is seen from a frame

An expression looks at a frame through its references, and through the calls that it opens. Two
frames that these do not tell apart give it the same value.
-/
namespace Stencil

def Head.reference? : Head → Option Reference
  | .helper _ => none
  | .value r _ | .negated r _ => some r

mutual

def Expr.references : Expr → List Reference
  | .const _ => []
  | .reference r _ => [r]
  | .call ⟨_, head, args, hash⟩ =>
    head.reference?.toList ++ (argumentReferences args ++ hashReferences hash)

def argumentReferences : List Expr → List Reference
  | [] => []
  | e :: rest => e.references ++ argumentReferences rest

def hashReferences : List (String × Expr) → List Reference
  | [] => []
  | (_, e) :: rest => e.references ++ hashReferences rest

end

def Call.references (call : Call Expr) : List Reference :=
  call.head.reference?.toList ++ (argumentReferences call.args ++ hashReferences call.hash)

def Inclusion.references (i : Inclusion) : List Reference :=
  argumentReferences i.args ++ hashReferences i.hash

namespace Frame

def levels (f : Frame) : List Level := f.toLevel :: f.outer

def FunctionFree (f : Frame) : Prop := f.Resembles False True f

end Frame

namespace Renderer
variable {σ : Type} {r : Renderer σ} {f f' : Frame} {this : Value} {seen : Reference → Prop}

/-- Two frames from which the same is seen, by these references and by calls without bodies. -/
structure Sees (r : Renderer σ) (seen : Reference → Prop) (f f' : Frame) (this : Value) : Prop where
  refer : ∀ ref, seen ref → ∀ invoke, r.refer f this ref invoke = r.refer f' this ref invoke
  call : ∀ name hash h args,
    r.invoke (f.enter this name hash none false) (fun _ _ _ => pure "") h this args =
      r.invoke (f'.enter this name hash none false) (fun _ _ _ => pure "") h this args

theorem refer_of_functionFree (ref : Reference) (invoke : Bool)
    (hfind : f.find this ref = f'.find this ref) (hfree : (f.find this ref).2.FunctionFree) :
    r.refer f this ref invoke = r.refer f' this ref invoke := by
  unfold refer
  rw [← hfind]
  generalize f.find this ref = found at hfree
  obtain ⟨owner, v⟩ := found
  cases ref.data || ref.names.isEmpty with
  | true => rfl
  | false =>
    cases hfree with
    | function h => exact h.elim
    | _ => rfl

theorem Sees.callee (h : r.Sees seen f f' this) (name : String) (head : Head)
    (hhead : ∀ ref ∈ head.reference?, seen ref) :
    r.callee f this name head = r.callee f' this name head := by
  cases head with
  | helper h => rfl
  | value ref fallback => simp only [Renderer.callee, h.refer ref (hhead ref rfl)]
  | negated ref fallback => simp only [Renderer.callee, h.refer ref (hhead ref rfl)]

mutual

theorem Sees.eval (h : r.Sees seen f f' this) :
    (e : Expr) → (∀ ref ∈ e.references, seen ref) → r.eval f this e = r.eval f' this e
  | .const v, _ => by rw [Renderer.eval, Renderer.eval]
  | .reference ref invoke, he => by
    rw [Renderer.eval, Renderer.eval]
    exact h.refer ref (he ref (List.mem_singleton.2 rfl)) invoke
  | .call ⟨name, head, args, hash⟩, he => by
    simp only [Expr.references, List.forall_mem_append, Option.mem_toList] at he
    obtain ⟨hhead, hargs, hhash⟩ := he
    simp only [Renderer.eval, h.callee name head hhead, h.evalArgs args hargs,
      h.evalHash hash hhash, h.call]

theorem Sees.evalArgs (h : r.Sees seen f f' this) : (args : List Expr) →
    (∀ ref ∈ argumentReferences args, seen ref) → r.evalArgs f this args = r.evalArgs f' this args
  | [], _ => by rw [Renderer.evalArgs, Renderer.evalArgs]
  | e :: rest, hargs => by
    simp only [argumentReferences, List.forall_mem_append] at hargs
    simp only [Renderer.evalArgs, h.eval e hargs.1, h.evalArgs rest hargs.2]

theorem Sees.evalHash (h : r.Sees seen f f' this) : (hash : List (String × Expr)) →
    (∀ ref ∈ hashReferences hash, seen ref) → r.evalHash f this hash = r.evalHash f' this hash
  | [], _ => by rw [Renderer.evalHash, Renderer.evalHash]
  | (key, e) :: rest, hhash => by
    simp only [hashReferences, List.forall_mem_append] at hhash
    simp only [Renderer.evalHash, h.eval e hhash.1, h.evalHash rest hhash.2]

end

theorem Sees.inclusionContext (h : r.Sees seen f f' this) (i : Inclusion)
    (hi : ∀ ref ∈ i.references, seen ref) :
    r.inclusionContext f this i = r.inclusionContext f' this i := by
  obtain ⟨name, args, hash⟩ := i
  simp only [Inclusion.references, List.forall_mem_append] at hi
  unfold Renderer.inclusionContext
  rw [h.evalHash hash hi.2]
  cases args with
  | nil => rfl
  | cons e rest =>
    have he := hi.1
    simp only [argumentReferences, List.forall_mem_append] at he
    simp only [h.eval e he.1]

end Renderer

/-- Frames with the same levels and links: they differ in what their calls brought. -/
structure Frame.Aligned (f f' : Frame) : Prop where
  levels : f.levels = f'.levels
  links : f.links = f'.links

namespace Frame.Aligned
variable {σ : Type} {f f' : Frame} {this : Value}

theorem refl (f : Frame) : f.Aligned f := ⟨rfl, rfl⟩

theorem symm (h : f.Aligned f') : f'.Aligned f := ⟨h.levels.symm, h.links.symm⟩

theorem trans {f'' : Frame} (h : f.Aligned f') (h' : f'.Aligned f'') : f.Aligned f'' :=
  ⟨h.levels.trans h'.levels, h.links.trans h'.links⟩

theorem data (h : f.Aligned f') : f.data = f'.data :=
  congrArg Level.data (List.cons.inj h.levels).1

theorem find (h : f.Aligned f') (this : Value) (ref : Reference) :
    f.find this ref = f'.find this ref := by
  have hwalk (n : Nat) : f.walk n = f'.walk n := congrArg (·[n]?) h.levels
  unfold Frame.find Frame.base
  simp only [hwalk]

/-- What is entered does not depend on the call that it is entered from. -/
theorem enter (h : f.Aligned f') (this : Value) (name : String) (hash : Object)
    (bodies : Option (List Item × List Item)) (chained : Bool) :
    f.enter this name hash bodies chained = f'.enter this name hash bodies chained := by
  obtain ⟨hlevel, houter⟩ := List.cons.inj h.levels
  unfold Frame.enter
  rw [hlevel, houter, h.links]

theorem included (h : f.Aligned f') (context : Value) (links : Dict Target) :
    f.included context links = f'.included context links := by
  obtain ⟨hlevel, houter⟩ := List.cons.inj h.levels
  unfold Frame.included
  rw [hlevel, houter]

theorem withData (h : f.Aligned f') (data : Option Object) :
    (f.withData data).Aligned (f'.withData data) := by
  obtain ⟨hlevel, houter⟩ := List.cons.inj h.levels
  refine ⟨?_, h.links⟩
  unfold Frame.withData Frame.levels
  rw [houter, hlevel]

/-- Where nothing is a function, a frame is not told from another by what is seen from it. -/
theorem sees (h : f.Aligned f') (hf : f.FunctionFree) (hthis : this.FunctionFree) (r : Renderer σ) :
    r.Sees (fun _ => True) f f' this where
  refer ref _ invoke := Renderer.refer_of_functionFree ref invoke (h.find this ref) (hf.find hthis ref).2
  call name hash g args := by rw [h.enter]

theorem renderItem (h : f.Aligned f') (hf : f.FunctionFree) (hthis : this.FunctionFree)
    (r : Renderer σ) (item : Item) : r.renderItem f this item = r.renderItem f' this item := by
  have hsees := h.sees hf hthis r
  cases item with
  | text text => rw [Renderer.renderItem, Renderer.renderItem]
  | escaped e => rw [Renderer.renderItem, Renderer.renderItem, hsees.eval e fun _ _ => True.intro]
  | unescaped e => rw [Renderer.renderItem, Renderer.renderItem, hsees.eval e fun _ _ => True.intro]
  | block b =>
    obtain ⟨call, body, inverse, chained⟩ := b
    rw [Renderer.renderItem, Renderer.renderItem, hsees.callee call.name call.head fun _ _ => True.intro,
      hsees.evalArgs call.args fun _ _ => True.intro, hsees.evalHash call.hash fun _ _ => True.intro]
    simp only [h.enter]
  | inclusion i =>
    rw [Renderer.renderItem, Renderer.renderItem, Renderer.renderInclusion, Renderer.renderInclusion,
      hsees.inclusionContext i fun _ _ => True.intro, h.links]
    simp only [h.included]

theorem render (h : f.Aligned f') (hf : f.FunctionFree) (hthis : this.FunctionFree) (r : Renderer σ)
    (items : List Item) : r.render f this items = r.render f' this items := by
  induction items with
  | nil => rw [Renderer.render, Renderer.render]
  | cons item items ih =>
    rw [Renderer.render, Renderer.render, h.renderItem hf hthis r item, ih]

end Frame.Aligned
end Stencil
