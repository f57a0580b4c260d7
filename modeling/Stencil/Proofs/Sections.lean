import Stencil.Proofs.Blocks
import Stencil.Proofs.RoundTrip
import Stencil.Proofs.Scopes

set_option autoImplicit false

/-!
# Sections

Conditions, loops and sections without a helper go by one rule for whether a value is empty. They come
to a block by different ways and with different calls, but what a block renders depends only on the
value that it looks at and on which of its bodies it takes for that value.
-/
namespace Stencil

section
variable {σ α : Type} {r : Renderer σ} {f : Frame} {this : Value}

/-- What comes behind a reference matters only for the value it leads to. -/
theorem Renderer.refer_bind (hf : f.FunctionFree) (hthis : this.FunctionFree) (ref : Reference)
    (invoke invoke' : Bool) {k k' : Value → Render σ α}
    (h : k (f.find this ref).2 = k' (f.find this ref).2) :
    r.refer f this ref invoke >>= k = r.refer f this ref invoke' >>= k' := by
  have hfree := (hf.find hthis ref).2
  unfold refer
  generalize f.find this ref = found at h hfree
  obtain ⟨owner, v⟩ := found
  cases ref.data || ref.names.isEmpty with
  | true => simpa only [pure_bind] using h
  | false =>
    cases hfree with
    | function hnone => exact hnone.elim
    | undefined => simp only [bind_assoc, pure_bind, h]
    | _ => simpa only [pure_bind] using h

def Part.body (main inverse : List Item) (p : Part) : List Item :=
  match p.branch with
  | .main => main
  | .inverse => inverse

/-- The parts of a block one after another. The level does not show the call of the block. -/
def Renderer.bodies (r : Renderer σ) (f : Frame) (this : Value) (main inverse : List Item)
    (ps : List Part) : Render σ String :=
  Render.parts (fun p => r.render
    ((f.enter this "" ⟨[]⟩ none false).withData (p.round.map (·.write f.data))) p.context
    (p.body main inverse)) ps

/-- A call that looks at the value of a reference, with the parts it comes to for it. -/
inductive Call.Asks (ref : Reference) (decide : Value → Value → List Part) : Call Expr → Prop
  | helper {name : String} {b : Builtin} {invoke : Bool}
    (h : ∀ this v, b.parts? this [v] = some (decide this v)) :
    Asks ref decide ⟨name, .helper (.builtin b), [.reference ref invoke], []⟩
  | value {name : String} {b : Builtin} (h : ∀ this v, b.parts? this [v] = some (decide this v)) :
    Asks ref decide ⟨name, .value ref (some (.builtin b)), [], []⟩
  | negated {name : String} {b : Builtin}
    (h : ∀ this v, b.parts? this [.bool v.isEmpty] = some (decide this v)) :
    Asks ref decide ⟨name, .negated ref (some (.builtin b)), [], []⟩

namespace Renderer
variable {main inverse : List Item}

theorem invoke_bodies (hf : f.FunctionFree) (hthis : this.FunctionFree) {b : Builtin} {v : Value}
    (hv : v.FunctionFree) {ps : List Part} (hparts : b.parts? this [v] = some ps) (name : String) :
    (do
      let inner := f.enter this name (.ofList []) (some (main, inverse)) false
      let v ← r.invoke inner
        (fun branch context data =>
          match branch with
          | .main => r.render (inner.withData data) context main
          | .inverse => r.render (inner.withData data) context inverse)
        (.builtin b) this [v]
      return v.text) = r.bodies f this main inverse ps := by
  have hargs : List.Forall₂ (Value.Resembles False True) [v] [v] := .cons hv .nil
  have hinner := hf.enter hthis name (.ofList .nil) (some (main, inverse)) false
  dsimp only
  rw [invoke_some hparts]
  simp only [bind_assoc, pure_bind, Value.text, bind_pure]
  refine Render.parts_congr fun p hp => ?_
  obtain ⟨hcontext, hdata⟩ :=
    (Builtin.parts_offers hparts p hp).functionFree hthis hargs hinner.level.data
  have haligned : (f.enter this name (.ofList []) (some (main, inverse)) false).Aligned
      (f.enter this "" ⟨[]⟩ none false) := ⟨rfl, rfl⟩
  have hround := haligned.withData (p.round.map (·.write f.data))
  unfold Part.body
  cases p.branch with
  | main => exact hround.render (hinner.withData hdata) hcontext r main
  | inverse => exact hround.render (hinner.withData hdata) hcontext r inverse

/-- A block renders the parts for the value that it looks at. -/
theorem renderItem_asks (hf : f.FunctionFree) (hthis : this.FunctionFree) {ref : Reference}
    {decide : Value → Value → List Part} {call : Call Expr} (h : call.Asks ref decide) :
    r.renderItem f this (.block ⟨call, main, inverse, false⟩) = (do
      let v ← r.refer f this ref false
      r.bodies f this main inverse (decide this v)) := by
  have hfree := (hf.find hthis ref).2
  cases h with
  | helper h =>
    rw [renderItem]
    simp only [callee, evalArgs, eval, evalHash, bind_assoc, pure_bind, List.nil_append]
    exact refer_bind hf hthis ref _ _ (invoke_bodies hf hthis hfree (h this _) _)
  | @value name b h =>
    rw [renderItem]
    simp only [callee, evalArgs, evalHash, bind_assoc, pure_bind, List.append_nil]
    refine refer_bind hf hthis ref _ _ ?_
    refine Eq.trans ?_ (invoke_bodies hf hthis hfree (h this _) name)
    generalize (f.find this ref).2 = v at hfree
    cases hfree with
    | function hnone => exact hnone.elim
    | _ => rfl
  | negated h =>
    rw [renderItem]
    simp only [callee, fallBack, evalArgs, evalHash, bind_assoc, pure_bind, List.append_nil]
    exact refer_bind hf hthis ref _ _ (invoke_bodies hf hthis (.bool _) (h this _) _)

end Renderer
end

namespace Builtin
variable (this : Value) {v : Value}

def partsFor (b : Builtin) (this v : Value) : List Part := (b.parts? this [v]).getD []

def looksAtOne : Builtin → Bool
  | withBlock | ifBlock | unlessBlock | eachBlock | blockMissing => true
  | _ => false

theorem parts?_partsFor {b : Builtin} (hb : b.looksAtOne = true) (this v : Value) :
    b.parts? this [v] = some (b.partsFor this v) := by
  unfold partsFor
  cases b with
  | blockMissing =>
    unfold parts?
    dsimp only
    split_ifs <;> rfl
  | withBlock | ifBlock | unlessBlock | eachBlock => rfl
  | _ => cases hb

theorem parts?_negated (this v : Value) :
    blockMissing.parts? this [.bool v.isEmpty] = some (unlessBlock.partsFor this v) := by
  unfold partsFor parts?
  dsimp only
  cases v.isEmpty <;> rfl

/-! A section is a loop, a change of the context or a condition. -/

theorem partsFor_section_array (h : v.isArray = true) :
    blockMissing.partsFor this v = eachBlock.partsFor this v := by
  cases v with
  | array items => cases items <;> rfl
  | _ => cases h

theorem partsFor_section_object (h : v.isObject = true) (harray : v.isArray = false) :
    blockMissing.partsFor this v = withBlock.partsFor this v := by
  unfold partsFor parts?
  dsimp only
  rw [h, harray]
  cases v.isEmpty <;> rfl

theorem partsFor_section_other (h : v.isObject = false) :
    blockMissing.partsFor this v = ifBlock.partsFor this v := by
  have harray : v.isArray = false := by cases v <;> first | rfl | cases h
  unfold partsFor parts?
  dsimp only
  rw [h, harray]
  cases v.isEmpty <;> rfl

end Builtin

theorem Renderer.bodies_unless {σ : Type} (r : Renderer σ) (f : Frame) (this v : Value)
    (main inverse : List Item) :
    r.bodies f this inverse main (Builtin.unlessBlock.partsFor this v) =
      r.bodies f this main inverse (Builtin.ifBlock.partsFor this v) := by
  unfold Builtin.partsFor Builtin.parts?
  dsimp only
  cases v.isEmpty <;> rfl

/-- Two texts that may stand for each other at every spot: what they are read as renders alike wherever
the condition holds and no function is in sight. -/
def Catalog.Alike (c : Catalog) (place : Frame → Value → Prop) (cs cs' : List Char) : Prop :=
  ∃ x y, (∀ spot : Spot c, c.Exchanges x y (spot.fill cs) (spot.fill cs')) ∧
    ∀ {σ : Type} (r : Renderer σ) (f : Frame) (this : Value), f.FunctionFree → this.FunctionFree →
      place f this → r.renderItem f this x = r.renderItem f this y

/-- A built-in helper renders its bodies and calls functions only where it comes to parts. -/
theorem Builtin.run_act_none {σ : Type} {b : Builtin} {i : Invocation}
    (h : b.parts? i.this i.args = none)
    (render render' : Branch → Value → Option Object → Render σ String)
    (call call' : Helper → Value → List Value → Render σ Value) :
    (b.act i).run render call = (b.act i).run render' call' := by
  obtain ⟨this, args, name, hash, data, isBlock⟩ := i
  cases b with
  | noop =>
    match args with
    | [] => cases h
    | _ :: _ => rfl
  | withBlock | ifBlock | unlessBlock | eachBlock =>
    match args with
    | [v] => cases h
    | [] | _ :: _ :: _ => rfl
  | blockMissing =>
    match args with
    | [v] =>
      rw [parts?_partsFor rfl] at h
      cases h
    | [] | _ :: _ :: _ => rfl
  | lookup =>
    match args with
    | [_, _] | [] | [_] | _ :: _ :: _ :: _ => rfl
  | log =>
    match args with
    | [_] | [] | _ :: _ :: _ => rfl
  | callMissing => rfl

namespace Renderer
variable {σ : Type} {r : Renderer σ} {included : Template → Prop} {x y : Item}

mutual

/-- Items that render alike may be exchanged within blocks. -/
theorem renderItem_exchanged (hr : r.Agrees False True True (fun _ => True) included r)
    (hxy : ∀ f this, f.FunctionFree → this.FunctionFree →
      r.renderItem f this x = r.renderItem f this y)
    (f : Frame) (hf : f.FunctionFree) (this : Value) (hthis : this.FunctionFree) :
    (z : Item) → z.Fits False (fun _ => True) → ∀ {z' : Item}, Item.Exchanged x y z z' →
      r.renderItem f this z = r.renderItem f this z'
  | .block ⟨call, body, inverse, chained⟩, hitem, _, h => by
    cases h with
    | same => rfl
    | here => exact hxy f this hf hthis
    | @block _ _ _ body' _ inverse' hbody' hinverse' =>
      cases hitem with
      | block hhead hargs hhash hbody hinverse =>
        rw [renderItem, renderItem]
        refine (callee_agrees hf hthis call.name hhead).bind_congr fun ⟨h, first⟩ hcallee => ?_
        obtain ⟨⟨b, rfl, -⟩, hfirst⟩ := hcallee
        refine (evalArgs_agrees cleanly_true hf hthis _ hargs).bind_congr fun vs hvs => ?_
        refine (evalHash_agrees cleanly_true hf hthis _ hhash).bind_congr fun hash hhash => ?_
        dsimp only
        have hinner := hf.enter hthis call.name (.ofList hhash) (some (body, inverse)) chained
        have haligned : (f.enter this call.name (.ofList hash) (some (body, inverse)) chained).Aligned
            (f.enter this call.name (.ofList hash) (some (body', inverse')) chained) := ⟨rfl, rfl⟩
        have hargs' : List.Forall₂ (Value.Resembles False True) (first ++ vs) (first ++ vs) :=
          List.rel_append hfirst hvs
        generalize first ++ vs = args at hargs' ⊢
        cases hparts : b.parts? this args with
        | none =>
          refine congrArg (· >>= _) ?_
          exact Builtin.run_act_none (i := Frame.invocation _ this args) hparts _ _ _ _
        | some parts =>
          rw [invoke_some hparts, invoke_some hparts]
          refine congrArg (· >>= _) (congrArg (· >>= _) (Render.parts_congr fun p hp => ?_))
          obtain ⟨hcontext, hdata⟩ := (Builtin.parts_offers hparts p hp).functionFree hthis hargs'
            hinner.level.data
          have hround := hinner.withData hdata
          have hmoved := haligned.withData (p.round.map (·.write f.data))
          cases p.branch with
          | main =>
            refine (render_exchanged hr hxy _ hround p.context hcontext body hbody hbody').trans ?_
            exact hmoved.render hround hcontext r body'
          | inverse =>
            refine (render_exchanged hr hxy _ hround p.context hcontext inverse hinverse
              hinverse').trans ?_
            exact hmoved.render hround hcontext r inverse'
  | .text _, _, _, h | .escaped _, _, _, h | .unescaped _, _, _, h | .inclusion _, _, _, h => by
    cases h with
    | same => rfl
    | here => exact hxy f this hf hthis

theorem render_exchanged (hr : r.Agrees False True True (fun _ => True) included r)
    (hxy : ∀ f this, f.FunctionFree → this.FunctionFree →
      r.renderItem f this x = r.renderItem f this y)
    (f : Frame) (hf : f.FunctionFree) (this : Value) (hthis : this.FunctionFree) :
    (zs : List Item) → (∀ z ∈ zs, z.Fits False fun _ => True) → ∀ {zs' : List Item},
      List.Forall₂ (Item.Exchanged x y) zs zs' → r.render f this zs = r.render f this zs'
  | [], _, _, h => by cases h; rfl
  | z :: zs, hfits, _, h => by
    obtain ⟨hz, hzs⟩ := List.forall_mem_cons.1 hfits
    cases h with
    | cons hhead htail =>
      rw [render, render, renderItem_exchanged hr hxy f hf this hthis z hz hhead,
        render_exchanged hr hxy f hf this hthis zs hzs htail]

end

end Renderer

/-- Two sources that both do not compile, or compile to templates that render alike where nothing is a
function. -/
def Catalog.SameOutcome (c : Catalog) (source source' : String) : Prop :=
  Option.Rel
    (fun t t' => ∀ {σ : Type} (host : Host σ) (partial? : Dict Target → String → Option Template)
      (depth : Nat) (context : Value) (seed : Object),
      (∀ links name u, partial? links name = some u → ∀ item ∈ u.items, item.From c.dialect) →
        context.FunctionFree → (∀ entry ∈ seed.entries, entry.2.FunctionFree) →
          t.render host partial? depth context seed = t'.render host partial? depth context seed)
    (c.compile source).toOption (c.compile source').toOption

theorem Catalog.links_of_compile {c : Catalog} {source : String} {t : Template}
    (h : c.compile source = .ok t) : t.links = ⟨[]⟩ := by
  unfold compile at h
  cases hcheck : (Outline.ofSource c.dialect source).check source fun name =>
      .ok (c.sources.get? name).isSome with
  | error e => rw [hcheck] at h; cases h
  | ok items =>
    rw [hcheck] at h
    cases h
    rfl

/-- With built-in helpers only, what renders alike at each place does so in whole templates. -/
theorem Catalog.Alike.sameOutcome {c : Catalog} (hd : c.dialect.BuiltinsOnly) {cs cs' : List Char}
    (h : c.Alike (fun _ _ => True) cs cs') (spot : Spot c) :
    c.SameOutcome (spot.fill cs) (spot.fill cs') := by
  obtain ⟨x, y, hexchanges, hxy⟩ := h
  have hsources := hexchanges spot
  unfold Catalog.Exchanges at hsources
  unfold SameOutcome
  cases ht : c.compile (spot.fill cs) with
  | error e =>
    rw [ht] at hsources
    cases ht' : c.compile (spot.fill cs') with
    | error e' => exact .none
    | ok t' => rw [ht'] at hsources; cases hsources
  | ok t =>
    rw [ht] at hsources
    cases ht' : c.compile (spot.fill cs') with
    | error e' => rw [ht'] at hsources; cases hsources
    | ok t' =>
      rw [ht'] at hsources
      cases hsources with
      | some hitems =>
        refine .some fun {σ} host partial? depth context seed hpartials hcontext hseed => ?_
        have hincluded (u : Template) (hu : ∀ item ∈ u.items, item.From c.dialect) :
            (∀ item ∈ u.items, item.Fits False fun _ => True) ∧
              ∀ name ∈ includes u.items, ∀ v, partial? u.links name = some v →
                ∀ item ∈ v.items, item.From c.dialect :=
          ⟨fun item hitem => (hu item hitem).fits_all hd False.elim,
            fun name _ v hv => hpartials u.links name v hv⟩
        have hseed' : seed.Resembles False True seed :=
          List.forall₂_same.2 fun entry hentry => .mk entry.1 (hseed entry hentry)
        unfold Template.render
        rw [links_of_compile ht, links_of_compile ht']
        exact Renderer.render_exchanged (renderer_agrees cleanly_true hincluded host host depth)
          (fun f this hf hthis => hxy _ f this hf hthis True.intro) _ (.root hcontext hseed' _) context
          hcontext t.items (hincluded t (from_of_compile ht)).1 hitems

def Catalog.Shows (c : Catalog) (ref : Reference) (decide : Value → Value → List Part)
    (main inverse : List Item) (cs : List Char) : Prop :=
  ∃ call : Call Expr, call.Asks ref decide ∧ ReadsAs c cs (.block ⟨call, main, inverse, false⟩)

theorem Catalog.Shows.alike {c : Catalog} {ref : Reference}
    {decide decide' : Value → Value → List Part} {main inverse main' inverse' : List Item}
    {cs cs' : List Char} {place : Frame → Value → Prop}
    (h : c.Shows ref decide main inverse cs) (h' : c.Shows ref decide' main' inverse' cs')
    (hbodies : ∀ {σ : Type} (r : Renderer σ) (f : Frame) (this : Value), place f this →
      r.bodies f this main inverse (decide this (f.find this ref).2) =
        r.bodies f this main' inverse' (decide' this (f.find this ref).2)) :
    c.Alike place cs cs' := by
  obtain ⟨call, hasks, hreads⟩ := h
  obtain ⟨call', hasks', hreads'⟩ := h'
  refine ⟨_, _, fun spot => spot.exchanges hreads hreads', fun r f this hf hthis hplace => ?_⟩
  rw [Renderer.renderItem_asks hf hthis hasks, Renderer.renderItem_asks hf hthis hasks']
  exact Renderer.refer_bind hf hthis ref _ _ (hbodies r f this hplace)

def Dialect.HasBuiltins (d : Dialect) : Prop :=
  ∀ name h, Builtin.registry.get? name = some h → d.helpers.get? name = some h

/-- A path that calls no helper, with a body for when it leads to something and one for when not. -/
structure Choice (c : Catalog) where
  path : Path
  isValue : ∀ name, path.names = [name] → c.dialect.helpers.get? name = none
  main : Snippet c
  inverse : Snippet c

theorem Path.head_value {d : Dialect} {p : Path}
    (h : ∀ name, p.names = [name] → d.helpers.get? name = none) (fallback : Option Helper) :
    p.head d fallback = .value ⟨false, 0, p.names⟩ fallback := by
  unfold head
  split
  · next name hnames =>
    rw [h name hnames, hnames]
    rfl
  · rfl

namespace Choice
variable {c : Catalog} (k : Choice c)

def reference : Reference := ⟨false, 0, k.path.names⟩

def value (f : Frame) (this : Value) : Value := (f.find this k.reference).2

def helper (k : Choice c) (name : Path) (main inverse : Snippet c) : List Char :=
  name.block (' ' :: k.path.text) main (some inverse)

def condition : List Char := k.helper .ifWord k.main k.inverse

def opposite : List Char := k.helper (.ofName "unless".toList rfl) k.inverse k.main

def loop : List Char := k.helper (.ofName "each".toList rfl) k.main k.inverse

def within : List Char := k.helper (.ofName "with".toList rfl) k.main k.inverse

def negated : List Char := k.path.negatedBlock k.inverse (some k.main)

def plain : List Char := k.path.block [] k.main (some k.inverse)

variable (hd : c.dialect.HasBuiltins)
include hd

theorem shows_helper (name : List Char) (hname : Token.IsName name) {b : Builtin}
    (hget : Builtin.registry.get? (Cursor.nameOf name) = some (.builtin b)) (hb : b.looksAtOne = true)
    (main inverse : Snippet c) :
    c.Shows k.reference b.partsFor main.items inverse.items
      (k.helper (.ofName name hname) main inverse) := by
  have hcall := Path.call_ofName hname (hd _ _ hget)
    [.positional (c.dialect.reference ⟨false, 0, k.path.names⟩)]
  have hreads := Path.readsAs_call (.ofName name hname) main (some inverse)
    (Call.allowed_of_helper (congrArg Call.head hcall) c.dialect)
    (readsArguments_path c.dialect k.path)
  rw [hcall] at hreads
  exact ⟨_, .helper (Builtin.parts?_partsFor hb), hreads⟩

theorem blockFallback : c.dialect.blockFallback = some (.builtin .blockMissing) := hd _ _ rfl

theorem shows_negated : c.Shows k.reference Builtin.unlessBlock.partsFor k.inverse.items k.main.items
    k.negated := by
  have hreads := k.path.readsAs_negated k.inverse (some k.main)
  unfold Path.negated at hreads
  rw [blockFallback hd] at hreads
  exact ⟨_, .negated Builtin.parts?_negated, hreads⟩

theorem shows_plain (hlenient : c.dialect.knownHelpersOnly = false) :
    c.Shows k.reference Builtin.blockMissing.partsFor k.main.items k.inverse.items k.plain := by
  have hreads := k.path.readsAs_call k.main (some k.inverse) (Call.allowed_of_lenient hlenient _)
    (readsArguments_nil c.dialect)
  unfold Path.call at hreads
  rw [Path.head_value k.isValue, blockFallback hd] at hreads
  exact ⟨_, .value (Builtin.parts?_partsFor rfl), hreads⟩

/-- One rule of emptiness for all ways to choose between two bodies. A condition, the opposite
condition and the negated section, both with the bodies exchanged, may stand for each other at every
spot, and with built-in helpers only the whole templates render alike. A section without a helper may
stand for a loop where its value is an array, for a change of the context where it is another kind of
object, and for a condition where it is none. -/
theorem render_choice :
    c.Alike (fun _ _ => True) k.condition k.opposite ∧
      c.Alike (fun _ _ => True) k.condition k.negated ∧
      (c.dialect.knownHelpersOnly = false →
        c.Alike (fun f this => (k.value f this).isArray = true) k.plain k.loop ∧
          c.Alike (fun f this => (k.value f this).isObject = true ∧ (k.value f this).isArray = false)
            k.plain k.within ∧
          c.Alike (fun f this => (k.value f this).isObject = false) k.plain k.condition) ∧
      (c.dialect.BuiltinsOnly → ∀ spot : Spot c,
        c.SameOutcome (spot.fill k.condition) (spot.fill k.opposite) ∧
          c.SameOutcome (spot.fill k.condition) (spot.fill k.negated)) := by
  have hcondition := k.shows_helper hd "if".toList rfl rfl rfl k.main k.inverse
  have hopposite := k.shows_helper hd "unless".toList rfl rfl rfl k.inverse k.main
  have hloop := k.shows_helper hd "each".toList rfl rfl rfl k.main k.inverse
  have hwithin := k.shows_helper hd "with".toList rfl rfl rfl k.main k.inverse
  have hunless : c.Alike (fun _ _ => True) k.condition k.opposite :=
    hcondition.alike hopposite fun r f this _ => (r.bodies_unless f this _ _ _).symm
  have hnegated : c.Alike (fun _ _ => True) k.condition k.negated :=
    hcondition.alike (k.shows_negated hd) fun r f this _ => (r.bodies_unless f this _ _ _).symm
  refine ⟨hunless, hnegated, fun hlenient => ?_, fun hbuiltins spot =>
    ⟨hunless.sameOutcome hbuiltins spot, hnegated.sameOutcome hbuiltins spot⟩⟩
  have hplain := k.shows_plain hd hlenient
  refine ⟨hplain.alike hloop fun r f this h => ?_, hplain.alike hwithin fun r f this h => ?_,
    hplain.alike hcondition fun r f this h => ?_⟩
  · exact congrArg (r.bodies f this _ _) (Builtin.partsFor_section_array this h)
  · exact congrArg (r.bodies f this _ _) (Builtin.partsFor_section_object this h.1 h.2)
  · exact congrArg (r.bodies f this _ _) (Builtin.partsFor_section_other this h)

omit hd

def listed : Choice Catalog.initial where
  path := ⟨['p'], [('.', ['q'])], rfl, fun step hstep => by
    rw [List.mem_singleton.1 hstep]
    exact ⟨.inl rfl, rfl⟩⟩
  isValue _ h := nomatch h
  main := .letter _ 'Y' rfl
  inverse := .letter _ 'N' rfl

theorem reads_loop :
    Reads Catalog.initial.dialect none "#each xs\x7d\x7d".toList
      (.opening ⟨"each", .helper (.builtin .eachBlock), [.reference ⟨false, 0, ["xs"]⟩ true], []⟩)
      [] :=
  reads_opening (Path.ofName "each".toList rfl) none (Call.allowed_of_helper rfl _)
    (readsArguments_path Catalog.initial.dialect (Path.ofName "xs".toList rfl)) []

/-- The value may be an array in one round and missing in the next. -/
theorem render_choice_rounds :
    let source := "\x7b\x7b#each xs\x7d\x7d\x7b\x7b#if p.q\x7d\x7dY" ++
      "\x7b\x7belse\x7d\x7dN\x7b\x7b/if\x7d\x7d\x7b\x7b/each\x7d\x7d"
    let negated := "\x7b\x7b#each xs\x7d\x7d\x7b\x7b^p.q\x7d\x7dN" ++
      "\x7b\x7belse\x7d\x7dY\x7b\x7b/p.q\x7d\x7d\x7b\x7b/each\x7d\x7d"
    let this : Value := .object ⟨[("p", .object ⟨[("q", .array [])]⟩)]⟩
    Catalog.initial.dialect.HasBuiltins ∧ Catalog.initial.dialect.BuiltinsOnly ∧
      Catalog.initial.SameOutcome source negated ∧
      Catalog.initial.Alike (fun f this => (listed.value f this).isArray = true) listed.plain
        listed.loop ∧
      (listed.value (Frame.root this ⟨[]⟩ ⟨[]⟩) this).isArray = true := by
  intro source negated this
  let spot : Spot Catalog.initial := .inBlock reads_loop "\x7b\x7b/each\x7d\x7d".toList
  have hbuiltins : Catalog.initial.dialect.HasBuiltins := fun _ _ h => h
  have honly : Catalog.initial.dialect.BuiltinsOnly := fun _ _ h => h
  have hsource : spot.fill listed.condition = source := rfl
  have hnegated : spot.fill listed.negated = negated := rfl
  obtain ⟨-, -, hplain, hwhole⟩ := render_choice listed hbuiltins
  refine ⟨hbuiltins, honly, ?_, (hplain rfl).1, rfl⟩
  rw [← hsource, ← hnegated]
  exact (hwhole honly spot).2

end Choice
end Stencil
