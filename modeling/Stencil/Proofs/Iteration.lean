import Stencil.Proofs.InPlace
import Stencil.Proofs.Sections

set_option autoImplicit false

/-!
# Loops over lists

The rounds of a loop differ in their local data only. Items without references to local data do not
see it, at whatever depth they stand, so a round is rendered alike wherever in a list it comes, and a
loop over two lists is the loop over the first and then the loop over the second.
-/
namespace Stencil

namespace Frame
variable {f f' : Frame}

/-- Frames that remember the same contexts. Their data may differ. -/
def SameContexts (f f' : Frame) : Prop := f.levels.map Level.context = f'.levels.map Level.context

namespace SameContexts

theorem refl (f : Frame) : f.SameContexts f := rfl

theorem symm (h : f.SameContexts f') : f'.SameContexts f := Eq.symm h

theorem withData (h : f.SameContexts f') (data data' : Option Object) :
    (f.withData data).SameContexts (f'.withData data') := h

/-- The call that a block is entered with is not seen, nor the data around it. -/
theorem enter (h : f.SameContexts f') (this : Value) (name name' : String) (hash hash' : Object)
    (bodies bodies' : Option (List Item × List Item)) (chained : Bool) :
    (f.enter this name hash bodies chained).SameContexts
      (f'.enter this name' hash' bodies' chained) := by
  have houter : f.outer.map Level.context = f'.outer.map Level.context := (List.cons.inj h).2
  have hempty : f.outer.isEmpty = f'.outer.isEmpty := by
    rw [← List.isEmpty_map (f := Level.context), houter, List.isEmpty_map]
  refine congrArg (this :: ·) ?_
  unfold Frame.enter
  dsimp only
  rw [hempty]
  split
  · exact houter
  · exact h

theorem find (h : f.SameContexts f') (this : Value) {ref : Reference} (href : ref.data = false) :
    f.find this ref = f'.find this ref := by
  obtain ⟨data, up, names⟩ := ref
  subst href
  have hcontext (n : Nat) : (f.walk n).map Level.context = (f'.walk n).map Level.context := by
    unfold Frame.walk
    rw [← List.getElem?_map, ← List.getElem?_map]
    exact congrArg (·[n]?) h
  unfold Frame.find Frame.base
  cases up with
  | zero => rfl
  | succ up => simp only [hcontext]

end SameContexts
end Frame

def WithoutData (items : List Item) : Prop :=
  ∀ p ∈ standing 0 items, ∀ ref ∈ p.2.references, ref.data = false

/-- A helper that renders none of its bodies does not look at the data of the call. -/
theorem Builtin.act_eq_of_none {σ : Type} {b : Builtin} {i : Invocation}
    (h : b.parts? i.this i.args = none) (hash data : Object) (isBlock : Bool) :
    (b.act i : Action σ) = b.act { i with hash, data, isBlock } := by
  obtain ⟨this, args, name, _, _, _⟩ := i
  cases b with
  | noop =>
    match args with
    | [] => cases h
    | _ :: _ => rfl
  | withBlock | ifBlock | unlessBlock | eachBlock =>
    match args with
    | [v] => cases h
    | [] | _ :: _ :: _ => rfl
  | blockMissing =>
    match args with
    | [v] =>
      rw [parts?_partsFor rfl] at h
      cases h
    | [] | _ :: _ :: _ => rfl
  | lookup =>
    match args with
    | [_, _] | [] | [_] | _ :: _ :: _ :: _ => rfl
  | log =>
    match args with
    | [_] | [] | _ :: _ :: _ => rfl
  | callMissing => rfl

namespace Renderer
variable {σ : Type} {r : Renderer σ} {f f' : Frame} {this : Value}

/-- A built-in helper does the same from two frames, if its parts render the same. -/
theorem invoke_congr (hname : f.name = f'.name) (b : Builtin) (this : Value) (args : List Value)
    {render render' : Branch → Value → Option Object → Render σ String}
    (h : ∀ parts, b.parts? this args = some parts → ∀ p ∈ parts,
      render p.branch p.context (p.round.map (·.write f.data)) =
        render' p.branch p.context (p.round.map (·.write f'.data))) :
    r.invoke f render (.builtin b) this args = r.invoke f' render' (.builtin b) this args := by
  cases hparts : b.parts? this args with
  | none =>
    have hact : (b.act (f.invocation this args) : Action σ) = b.act (f'.invocation this args) := by
      rw [Builtin.act_eq_of_none (i := f.invocation this args) hparts f'.hash f'.data f'.bodies.isSome]
      unfold Frame.invocation
      rw [hname]
    unfold invoke
    change (b.act _).run _ _ = (b.act _).run _ _
    rw [hact]
    exact Builtin.run_act_none (i := f'.invocation this args) hparts render render' _ _
  | some parts =>
    rw [invoke_some hparts, invoke_some hparts]
    exact congrArg (· >>= _) (Render.parts_congr (h parts hparts))

theorem callee_sameContexts (h : f.SameContexts f') (hf : f.FunctionFree) (hthis : this.FunctionFree)
    (name : String) {head : Head} (hhead : ∀ ref ∈ head.reference?, ref.data = false) :
    r.callee f this name head = r.callee f' this name head := by
  have hrefer (ref : Reference) (href : ref.data = false) :
      r.refer f this ref false = r.refer f' this ref false :=
    refer_of_functionFree ref false (h.find this href) (hf.find hthis ref).2
  cases head with
  | helper g => rfl
  | value ref fallback => simp only [callee, hrefer ref (hhead ref rfl)]
  | negated ref fallback => simp only [callee, hrefer ref (hhead ref rfl)]

mutual

theorem eval_sameContexts (h : f.SameContexts f') (hf : f.FunctionFree) (hthis : this.FunctionFree) :
    (e : Expr) → e.Fits False → (∀ ref ∈ e.references, ref.data = false) →
      r.eval f this e = r.eval f' this e
  | .const v, _, _ => by rw [eval, eval]
  | .reference ref invoke, _, hrefs => by
    rw [eval, eval]
    have hfind := h.find this (hrefs ref (List.mem_singleton.2 rfl))
    exact refer_of_functionFree ref invoke hfind (hf.find hthis ref).2
  | .call ⟨name, head, args, hash⟩, he, hrefs => by
    simp only [Expr.references, List.forall_mem_append, Option.mem_toList] at hrefs
    obtain ⟨hheadrefs, hargrefs, hhashrefs⟩ := hrefs
    cases he with
    | call hhead hargs hhash =>
      rw [eval, eval, ← callee_sameContexts h hf hthis name hheadrefs,
        ← evalArgs_sameContexts h hf hthis args hargs hargrefs,
        ← evalHash_sameContexts h hf hthis hash hhash hhashrefs]
      refine (callee_agrees hf hthis name hhead).bind_congr fun ⟨g, first⟩ hcallee => ?_
      obtain ⟨⟨b, rfl, -⟩, -⟩ := hcallee
      refine bind_congr fun vs => bind_congr fun hash => ?_
      have hname : (f.enter this name (.ofList hash) none false).name =
          (f'.enter this name (.ofList hash) none false).name := rfl
      exact invoke_congr hname b this _ fun _ _ _ _ => rfl

theorem evalArgs_sameContexts (h : f.SameContexts f') (hf : f.FunctionFree)
    (hthis : this.FunctionFree) : (args : List Expr) → (∀ e ∈ args, e.Fits False) →
      (∀ ref ∈ argumentReferences args, ref.data = false) →
        r.evalArgs f this args = r.evalArgs f' this args
  | [], _, _ => by rw [evalArgs, evalArgs]
  | e :: rest, hargs, hrefs => by
    obtain ⟨he, hrest⟩ := List.forall_mem_cons.1 hargs
    simp only [argumentReferences, List.forall_mem_append] at hrefs
    rw [evalArgs, evalArgs, eval_sameContexts h hf hthis e he hrefs.1,
      evalArgs_sameContexts h hf hthis rest hrest hrefs.2]

theorem evalHash_sameContexts (h : f.SameContexts f') (hf : f.FunctionFree)
    (hthis : this.FunctionFree) : (hash : List (String × Expr)) →
      (∀ entry ∈ hash, entry.2.Fits False) → (∀ ref ∈ hashReferences hash, ref.data = false) →
        r.evalHash f this hash = r.evalHash f' this hash
  | [], _, _ => by rw [evalHash, evalHash]
  | (key, e) :: rest, hhash, hrefs => by
    obtain ⟨he, hrest⟩ := List.forall_mem_cons.1 hhash
    simp only [hashReferences, List.forall_mem_append] at hrefs
    rw [evalHash, evalHash, eval_sameContexts h hf hthis e he hrefs.1,
      evalHash_sameContexts h hf hthis rest hrest hrefs.2]

end

mutual

/-- An item without references to local data renders the same whatever the local data is. -/
theorem renderItem_sameContexts (f f' : Frame) (h : f.SameContexts f') (hf : f.FunctionFree)
    (hf' : f'.FunctionFree) (this : Value) (hthis : this.FunctionFree) (k : Nat) : (item : Item) →
      item.Fits False (fun _ => True) → item.includes = [] →
        (∀ p ∈ item.standing k, ∀ ref ∈ p.2.references, ref.data = false) →
          r.renderItem f this item = r.renderItem f' this item
  | .text text, _, _, _ => by rw [renderItem, renderItem]
  | .escaped e, hitem, _, hrefs => by
    cases hitem with
    | escaped he =>
      have he' := eval_sameContexts (r := r) h hf hthis e he (hrefs _ (Item.mem_standing k _))
      rw [renderItem, renderItem, he']
  | .unescaped e, hitem, _, hrefs => by
    cases hitem with
    | unescaped he =>
      have he' := eval_sameContexts (r := r) h hf hthis e he (hrefs _ (Item.mem_standing k _))
      rw [renderItem, renderItem, he']
  | .block ⟨call, body, inverse, chained⟩, hitem, hflat, hrefs => by
    rw [Item.includes, List.append_eq_nil_iff] at hflat
    simp only [Item.standing, List.forall_mem_cons, List.forall_mem_append] at hrefs
    obtain ⟨hcallrefs, hbodyrefs, hinverserefs⟩ := hrefs
    simp only [Item.references, Call.references, List.forall_mem_append, Option.mem_toList] at hcallrefs
    obtain ⟨hheadrefs, hargrefs, hhashrefs⟩ := hcallrefs
    cases hitem with
    | block hhead hargs hhash hbody hinverse =>
      rw [renderItem, renderItem, ← callee_sameContexts h hf hthis call.name hheadrefs,
        ← evalArgs_sameContexts h hf hthis call.args hargs hargrefs,
        ← evalHash_sameContexts h hf hthis call.hash hhash hhashrefs]
      refine (callee_agrees hf hthis call.name hhead).bind_congr fun ⟨g, first⟩ hcallee => ?_
      obtain ⟨⟨b, rfl, -⟩, hfirst⟩ := hcallee
      refine (evalArgs_agrees cleanly_true hf hthis _ hargs).bind_congr fun vs hvs => ?_
      refine (evalHash_agrees cleanly_true hf hthis _ hhash).bind_congr fun hash hhash => ?_
      have hargs' : List.Forall₂ (Value.Resembles False True) (first ++ vs) (first ++ vs) :=
        List.rel_append hfirst hvs
      have hinner := hf.enter hthis call.name (.ofList hhash) (some (body, inverse)) chained
      have hinner' := hf'.enter hthis call.name (.ofList hhash) (some (body, inverse)) chained
      have hsame := h.enter this call.name call.name (.ofList hash) (.ofList hash)
        (some (body, inverse)) (some (body, inverse)) chained
      have hname : (f.enter this call.name (.ofList hash) (some (body, inverse)) chained).name =
          (f'.enter this call.name (.ofList hash) (some (body, inverse)) chained).name := rfl
      refine congrArg (· >>= _) (invoke_congr hname b this _ fun parts hparts p hp => ?_)
      have hoffers := Builtin.parts_offers hparts p hp
      obtain ⟨hcontext, hdata⟩ := hoffers.functionFree hthis hargs' hinner.level.data
      obtain ⟨-, hdata'⟩ := hoffers.functionFree hthis hargs' hinner'.level.data
      have hround := hsame.withData (p.round.map (·.write f.data)) (p.round.map (·.write f'.data))
      cases p.branch with
      | main =>
        exact render_sameContexts _ _ hround (hinner.withData hdata) (hinner'.withData hdata') p.context
          hcontext _ body hbody hflat.1 hbodyrefs
      | inverse =>
        exact render_sameContexts _ _ hround (hinner.withData hdata) (hinner'.withData hdata') p.context
          hcontext _ inverse hinverse hflat.2 hinverserefs
  | .inclusion i, _, hflat, _ => by
    rw [Item.includes] at hflat
    cases hflat

theorem render_sameContexts (f f' : Frame) (h : f.SameContexts f') (hf : f.FunctionFree)
    (hf' : f'.FunctionFree) (this : Value) (hthis : this.FunctionFree) (k : Nat) :
    (items : List Item) →
      (∀ item ∈ items, item.Fits False fun _ => True) → includes items = [] →
        (∀ p ∈ standing k items, ∀ ref ∈ p.2.references, ref.data = false) →
          r.render f this items = r.render f' this items
  | [], _, _, _ => by rw [render, render]
  | item :: items, hitems, hflat, hrefs => by
    obtain ⟨hitem, hitems⟩ := List.forall_mem_cons.1 hitems
    rw [includes, List.append_eq_nil_iff] at hflat
    simp only [standing, List.forall_mem_append] at hrefs
    rw [render, render, renderItem_sameContexts f f' h hf hf' this hthis k item hitem hflat.1
      hrefs.1, render_sameContexts f f' h hf hf' this hthis k items hitems hflat.2 hrefs.2]

end

def texts (r : Renderer σ) (f : Frame) (items : List Item) : List Value → Render σ String
  | [] => return ""
  | v :: vs => do
    let text ← r.render f v items
    let more ← texts r f items vs
    return text ++ more

theorem texts_append (r : Renderer σ) (f : Frame) (items : List Item) (xs ys : List Value) :
    r.texts f items (xs ++ ys) = (do
      let first ← r.texts f items xs
      let second ← r.texts f items ys
      return first ++ second) := by
  induction xs with
  | nil =>
    rw [List.nil_append, texts, pure_bind]
    simp
  | cons x xs ih =>
    rw [List.cons_append, texts, texts, ih]
    simp only [bind_assoc, pure_bind, String.append_assoc]

end Renderer

def Item.loop (e : Expr) (body inverse : List Item) (chained : Bool) : Item :=
  .block ⟨⟨"each", .helper (.builtin .eachBlock), [e], []⟩, body, inverse, chained⟩

def Value.members (v : Value) : List Value := (Builtin.iterations v).map Prod.fst

theorem Value.members_array (xs : List Value) : (Value.array xs).members = xs := by
  unfold members Builtin.iterations
  rw [List.map_map]
  exact List.zipIdx_map_fst 0 xs

theorem Value.members_object (fields : Object) :
    (Value.object fields).members = fields.entries.map Prod.snd := by
  have hentries := congrArg (List.map Prod.snd) (List.zipIdx_map_fst 0 fields.entries)
  unfold members Builtin.iterations
  rw [List.map_map] at hentries ⊢
  exact hentries

theorem Value.FunctionFree.members {v : Value} (h : v.FunctionFree) :
    ∀ member ∈ v.members, member.FunctionFree := by
  intro member hmember
  cases h with
  | array h =>
    rw [Value.members_array] at hmember
    exact List.forall₂_same.1 h member hmember
  | object h =>
    rw [Value.members_object] at hmember
    obtain ⟨entry, hentry, rfl⟩ := List.mem_map.1 hmember
    cases List.forall₂_same.1 h entry hentry with
    | mk key h => exact h
  | _ => cases hmember

namespace Renderer
variable {σ : Type} {r : Renderer σ} {f : Frame} {this : Value} {body : List Item}

theorem parts_eq_texts {render : Part → Render σ String} (f : Frame) (body : List Item)
    (rounds : List (Value × Round))
    (h : ∀ p ∈ rounds, render ⟨.main, p.1, some p.2⟩ = r.render f p.1 body) :
    Render.parts render (rounds.map fun (item, round) => ⟨.main, item, some round⟩) =
      r.texts f body (rounds.map Prod.fst) := by
  induction rounds with
  | nil => rfl
  | cons p rounds ih =>
    obtain ⟨hp, hrounds⟩ := List.forall_mem_cons.1 h
    rw [List.map_cons, List.map_cons, Render.parts, texts, hp, ih hrounds]

/-- A loop whose items do not look at local data renders them for each member, in the same frame. -/
theorem renderItem_loop (hf : f.FunctionFree) (hthis : this.FunctionFree)
    (hbody : ∀ item ∈ body, item.Fits False fun _ => True) (hflat : includes body = [])
    (hdata : WithoutData body) {e : Expr} {v : Value} (hv : v.FunctionFree)
    (heval : r.eval f this e = pure v) (hne : v.members ≠ []) (inverse : List Item) (chained : Bool) :
    r.renderItem f this (.loop e body inverse chained) =
      r.texts (f.enter this "" ⟨[]⟩ none chained) body v.members := by
  have hiterations : Builtin.iterations v ≠ [] := fun h => hne (congrArg (List.map Prod.fst) h)
  have hparts : Builtin.eachBlock.parts? this [v] =
      some ((Builtin.iterations v).map fun (item, round) => ⟨.main, item, some round⟩) := by
    unfold Builtin.parts? Builtin.eachParts
    dsimp only
    generalize Builtin.iterations v = rounds at hiterations
    cases rounds with
    | nil => exact absurd rfl hiterations
    | cons p rounds => rfl
  have hinner := hf.enter hthis "each" (.ofList .nil) (some (body, inverse)) chained
  have hplain := hf.enter hthis "" .nil none chained
  have hsame := Frame.SameContexts.enter (Frame.SameContexts.refl f) this "each" "" (.ofList []) ⟨[]⟩
    (some (body, inverse)) none chained
  rw [Item.loop, renderItem]
  simp only [callee, evalArgs, evalHash, heval, pure_bind, List.nil_append]
  rw [invoke_some hparts]
  simp only [bind_assoc, pure_bind, Value.text, bind_pure]
  refine parts_eq_texts _ body _ fun p hp => ?_
  have hround : Builtin.Offers this [v] ⟨.main, p.1, some p.2⟩ := .round List.mem_cons_self hp
  obtain ⟨hcontext, hdata'⟩ :=
    hround.functionFree hthis (.cons hv .nil) hinner.level.data
  exact render_sameContexts _ _ (hsame.withData _ none) (hinner.withData hdata') hplain p.1 hcontext 0
    body hbody hflat hdata

/-- The texts of items for values without functions do not depend on anything outside. -/
theorem texts_endsIn (hf : f.FunctionFree) (hbody : ∀ item ∈ body, item.Fits False fun _ => True)
    (hflat : includes body = []) (values : List Value) (hvalues : ∀ v ∈ values, v.FunctionFree) :
    ∃ outcome events, ∀ state, (r.texts f body values).EndsIn state (some (outcome, state, events)) := by
  have hr : r.Agrees False True False (fun _ => True) (fun _ => False) r := ⟨rfl, fun _ => False.elim⟩
  have hagree : (r.texts f body values).Agree False (SameText fun _ => True) (r.texts f body values) := by
    induction values with
    | nil => exact .pure ⟨rfl, True.intro⟩
    | cons v values ih =>
      obtain ⟨hv, hvalues⟩ := List.forall_mem_cons.1 hvalues
      have hnames : ∀ name ∈ includes body, ∀ t, r.partial? f.links name = some t → False := by
        rw [hflat]
        exact nofun
      refine (render_agrees cleanly_true hr f f hf v v hv body hbody hnames).bind fun a a' ha => ?_
      refine (ih hvalues).bind fun b b' hb => ?_
      rw [ha.1, hb.1]
      exact .pure ⟨rfl, True.intro⟩
  cases hagree with
  | tooDeep h => exact h.elim
  | error hx => exact ⟨_, _, hx⟩
  | ok _ hx => exact ⟨_, _, hx⟩

/-- Loops with the same items, over two lists and over the one behind the other. With built-in helpers
and without functions, if the items do not look at local data and include nothing, the loop over both
lists is the loop over the first and then the loop over the second: its text is the text of the one with
that of the other behind it, or the first error. And a loop over an object is the loop over the list of
its values. -/
theorem renderItem_loop_append (hf : f.FunctionFree) (hthis : this.FunctionFree)
    (hbody : ∀ item ∈ body, item.Fits False fun _ => True) (hflat : includes body = [])
    (hdata : WithoutData body) (inverse : List Item) (chained : Bool) :
    (∀ (e e₁ e₂ : Expr) (xs ys : List Value), xs ≠ [] → ys ≠ [] →
      (Value.array xs).FunctionFree → (Value.array ys).FunctionFree →
      r.eval f this e = pure (.array (xs ++ ys)) → r.eval f this e₁ = pure (.array xs) →
      r.eval f this e₂ = pure (.array ys) →
        r.renderItem f this (.loop e body inverse chained) = (do
          let first ← r.renderItem f this (.loop e₁ body inverse chained)
          let second ← r.renderItem f this (.loop e₂ body inverse chained)
          return first ++ second) ∧
        ∃ first second : Except TemplateError String, ∀ world : World σ,
          (r.renderItem f this (.loop e₁ body inverse chained)).result world = some first ∧
          (r.renderItem f this (.loop e₂ body inverse chained)).result world = some second ∧
          (r.renderItem f this (.loop e body inverse chained)).result world = some (do
            let first ← first
            let second ← second
            return first ++ second)) ∧
      ∀ (e e' : Expr) (fields : Object), fields.entries ≠ [] → (Value.object fields).FunctionFree →
        r.eval f this e = pure (.object fields) →
        r.eval f this e' = pure (.array (fields.entries.map Prod.snd)) →
          r.renderItem f this (.loop e body inverse chained) =
            r.renderItem f this (.loop e' body inverse chained) := by
  have hloop (e : Expr) (v : Value) (hv : v.FunctionFree) (heval : r.eval f this e = pure v)
      (hne : v.members ≠ []) := renderItem_loop hf hthis hbody hflat hdata hv heval hne inverse chained
  have harray {vs : List Value} (hvs : ∀ v ∈ vs, v.FunctionFree) : (Value.array vs).FunctionFree :=
    .array (List.forall₂_same.2 hvs)
  constructor
  · intro e e₁ e₂ xs ys hxs hys hxsfree hysfree heval heval₁ heval₂
    have hxmembers := hxsfree.members
    have hymembers := hysfree.members
    rw [Value.members_array] at hxmembers hymembers
    have hboth := harray (List.forall_mem_append.2 ⟨hxmembers, hymembers⟩)
    have hx := hloop e₁ _ hxsfree heval₁ (by rwa [Value.members_array])
    have hy := hloop e₂ _ hysfree heval₂ (by rwa [Value.members_array])
    have hxy := hloop e _ hboth heval (by rw [Value.members_array]; simp [hxs])
    rw [Value.members_array] at hx hy hxy
    rw [hx, hy, hxy, texts_append]
    refine ⟨rfl, ?_⟩
    have hplain := hf.enter hthis "" .nil none chained
    obtain ⟨first, events, hfirst⟩ := texts_endsIn (r := r) hplain hbody hflat xs hxmembers
    obtain ⟨second, events', hsecond⟩ := texts_endsIn (r := r) hplain hbody hflat ys hymembers
    refine ⟨first, second, fun world => ?_⟩
    obtain ⟨events'', hends⟩ := (hfirst world.state).append (hsecond world.state)
    exact ⟨(hfirst world.state).result world.events, (hsecond world.state).result world.events,
      hends.result world.events⟩
  · intro e e' fields hne hfree heval heval'
    have hmembers := hfree.members
    rw [Value.members_object] at hmembers
    have hne' : fields.entries.map Prod.snd ≠ [] := by simpa using hne
    have hobject := hloop e _ hfree heval (by rwa [Value.members_object])
    have hvalues := hloop e' _ (harray hmembers) heval' (by rwa [Value.members_array])
    rw [Value.members_object] at hobject
    rw [Value.members_array] at hvalues
    rw [hobject, hvalues]

theorem eval_reference {ref : Reference} {owner v : Value} (hfind : f.find this ref = (owner, v))
    (hfree : v.FunctionFree) (hv : v ≠ .undefined) (invoke : Bool) :
    r.eval f this (.reference ref invoke) = pure v := by
  rw [eval, refer, hfind]
  cases ref.data || ref.names.isEmpty with
  | true => rfl
  | false =>
    cases hfree with
    | undefined => exact absurd rfl hv
    | function h => exact h.elim
    | _ => rfl

end Renderer

/-! A member, and a mark if there is a list around. -/

def enumerated : List Item := [
  .escaped (.reference ⟨false, 0, []⟩ true),
  .block
    { call := ⟨"if", .helper (.builtin .ifBlock), [.reference ⟨false, 1, ["all"]⟩ true], []⟩
      body := [.text ";"]
      inverse := []
      chained := false }]

def letters : Value :=
  .object ⟨[("all", .array [.string "a", .string "b"]), ("front", .array [.string "a"]),
    ("back", .array [.string "b"]), ("keyed", .object ⟨[("x", .string "a"), ("y", .string "b")]⟩)]⟩

def enumeration (name : String) : Item :=
  .loop (.reference ⟨false, 0, [name]⟩ true) enumerated [] false

theorem fits_enumerated : ∀ item ∈ enumerated, item.Fits False fun _ => True := by
  refine List.forall_mem_cons.2 ⟨.escaped (.reference fun _ => id), List.forall_mem_singleton.2 ?_⟩
  refine .block ⟨fun h hh => ?_, False.elim⟩ (List.forall_mem_singleton.2 (.reference fun _ => id))
    nofun (List.forall_mem_singleton.2 (.text True.intro)) nofun
  exact ⟨.ifBlock, List.mem_singleton.1 hh, nofun⟩

theorem withoutData_enumerated : WithoutData enumerated := by
  unfold WithoutData
  decide

theorem functionFree_letters : letters.FunctionFree := by
  have hletter (s : String) : (Value.string s).FunctionFree := .string s
  have hboth : (Value.array [.string "a", .string "b"]).FunctionFree :=
    .array (.cons (hletter "a") (.cons (hletter "b") .nil))
  have hkeyed : (Value.object ⟨[("x", .string "a"), ("y", .string "b")]⟩).FunctionFree :=
    .object (.cons (.mk "x" (hletter "a")) (.cons (.mk "y" (hletter "b")) .nil))
  exact .object (.cons (.mk "all" hboth) (.cons (.mk "front" (.array (.cons (hletter "a") .nil)))
    (.cons (.mk "back" (.array (.cons (hletter "b") .nil))) (.cons (.mk "keyed" hkeyed) .nil))))

def quietRenderer : Renderer Unit := renderer (fun _ _ => .done .null) (fun _ _ => none) 0

def lettersFrame : Frame := .root letters ⟨[]⟩ ⟨[]⟩

theorem renderItem_front :
    (quietRenderer.renderItem lettersFrame letters (enumeration "front")).result ⟨(), []⟩ = some (.ok "a;") :=
  rfl

theorem renderItem_back :
    (quietRenderer.renderItem lettersFrame letters (enumeration "back")).result ⟨(), []⟩ = some (.ok "b;") :=
  rfl

/-- The letters of both lists, and those of an object. -/
theorem renderItem_loop_letters :
    lettersFrame.FunctionFree ∧ letters.FunctionFree ∧
      (∀ item ∈ enumerated, item.Fits False fun _ => True) ∧ includes enumerated = [] ∧
      WithoutData enumerated ∧
      (quietRenderer.renderItem lettersFrame letters (enumeration "all")).result ⟨(), []⟩ = some (.ok "a;b;") ∧
      quietRenderer.renderItem lettersFrame letters (enumeration "keyed") =
        quietRenderer.renderItem lettersFrame letters (enumeration "all") := by
  have hf : lettersFrame.FunctionFree := .root functionFree_letters .nil ⟨[]⟩
  have hletter (s : String) : (Value.string s).FunctionFree := .string s
  have hfront : (Value.array [.string "a"]).FunctionFree := .array (.cons (hletter "a") .nil)
  have hback : (Value.array [.string "b"]).FunctionFree := .array (.cons (hletter "b") .nil)
  have hall : (Value.array [.string "a", .string "b"]).FunctionFree :=
    .array (.cons (hletter "a") (.cons (hletter "b") .nil))
  have hkeyed : (Value.object ⟨[("x", .string "a"), ("y", .string "b")]⟩).FunctionFree :=
    .object (.cons (.mk "x" (hletter "a")) (.cons (.mk "y" (hletter "b")) .nil))
  have heval (name : String) {owner v : Value} (hfind : lettersFrame.find letters ⟨false, 0, [name]⟩ =
      (owner, v)) (hfree : v.FunctionFree) (hv : v ≠ .undefined) :
      quietRenderer.eval lettersFrame letters (.reference ⟨false, 0, [name]⟩ true) = pure v :=
    Renderer.eval_reference hfind hfree hv true
  have hflat : includes enumerated = [] := by decide
  obtain ⟨happend, hobject⟩ := Renderer.renderItem_loop_append (r := quietRenderer) hf functionFree_letters
    fits_enumerated hflat withoutData_enumerated [] false
  refine ⟨hf, functionFree_letters, fits_enumerated, hflat, withoutData_enumerated, ?_, ?_⟩
  · obtain ⟨-, first, second, hresults⟩ := happend _ _ _ [.string "a"] [.string "b"] nofun nofun hfront
      hback (heval "all" rfl hall nofun) (heval "front" rfl hfront nofun)
      (heval "back" rfl hback nofun)
    obtain ⟨hfirst, hsecond, hboth⟩ := hresults ⟨(), []⟩
    cases hfirst.symm.trans renderItem_front
    cases hsecond.symm.trans renderItem_back
    exact hboth
  · exact hobject _ _ ⟨[("x", .string "a"), ("y", .string "b")]⟩ nofun hkeyed
      (heval "keyed" rfl hkeyed nofun) (heval "all" rfl hall nofun)

end Stencil
