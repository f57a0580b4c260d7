import Stencil.Proofs.Blocks
import Stencil.Proofs.RoundTrip
import Stencil.Proofs.Scopes

set_option autoImplicit false

/-!
# Chains of conditions

Every further condition of a chain is a block in the inverse body of the one before it, and takes over
its level. So all bodies of a chain are rendered inside of one level. But a condition is looked up
where its block is met: the first one outside of that level and every other one inside.
-/
namespace Stencil

namespace Render
variable {σ α β : Type}

/-- What a computation comes to, and the state that it leaves the host in. Reports are left out. -/
def ends (x : Render σ α) (world : World σ) : Option (Except TemplateError α × σ) :=
  (x.run world).map fun (result, world) => (result, world.state)

/-- The computation comes to a value and does nothing but report. -/
def Looks (x : Render σ α) (a : α) : Prop :=
  ∀ state, ∃ events, x.EndsIn state (some (.ok a, state, events))

/-- What comes behind such a computation is all that counts, if it does not depend on reports. -/
theorem Looks.ends {x : Render σ α} {a : α} (h : x.Looks a) {f : α → Render σ β}
    (hf : (f a).Alike (fun _ => True) (f a)) (world : World σ) :
    (x >>= f).ends world = (f a).ends world := by
  obtain ⟨state, before⟩ := world
  obtain ⟨events, hx⟩ := h state
  obtain ⟨ending, hends, -⟩ := hf state
  have hboth := hx.bind_ok hends
  unfold Render.ends
  change ((x >>= f) ⟨state, before⟩).map _ = ((f a) ⟨state, before⟩).map _
  rw [hboth before, hends before]
  cases ending <;> rfl

end Render

section
variable {σ : Type} {r : Renderer σ} {f g : Frame} {this : Value}

/-- A reference that leads to no function is only looked up. -/
theorem Renderer.refer_looks (hf : f.FunctionFree) (hthis : this.FunctionFree) (ref : Reference)
    (invoke : Bool) : (r.refer f this ref invoke).Looks (f.find this ref).2 := by
  have hfree := (hf.find hthis ref).2
  unfold refer
  generalize f.find this ref = found at hfree
  obtain ⟨owner, v⟩ := found
  intro state
  cases ref.data || ref.names.isEmpty with
  | true => exact ⟨_, .of_quiet fun _ => rfl⟩
  | false =>
    cases hfree with
    | function h => exact h.elim
    | undefined => exact ⟨[.undefinedValue (".".intercalate ref.names)], fun _ => rfl⟩
    | _ => exact ⟨_, .of_quiet fun _ => rfl⟩

/-- Rendering does not depend on what was reported before. -/
theorem renderer_render_alike (host : Host σ) (partial? : Dict Target → String → Option Template)
    (depth : Nat) (f : Frame) (this : Value) (items : List Item) :
    ((renderer host partial? depth).render f this items).Alike (fun _ => True)
      ((renderer host partial? depth).render f this items) := by
  have hmatches : Matches partial? partial? fun links links' _ => links = links' := by
    rintro links _ name rfl
    cases ht : partial? links name with
    | none => exact .inl ⟨rfl, rfl⟩
    | some t => exact .inr ⟨t, t, rfl, rfl, rfl, fun _ _ => rfl⟩
  have htolerates : Tolerates (fun _ => True) (fun links links' _ => links = links') host partial? :=
    ⟨fun _ _ => Action.failsWith_true _, fun _ => True.intro, fun _ _ _ _ _ => True.intro⟩
  exact Renderer.render_alike (renderer_alike hmatches htolerates depth) f (fun _ _ _ => rfl) this
    items fun _ _ => rfl

end

structure Clause where
  reference : Reference
  invoke : Bool
  body : List Item

namespace Clause

def call (k : Clause) : Call Expr :=
  ⟨"if", .helper (.builtin .ifBlock), [.reference k.reference k.invoke], []⟩

def item (k : Clause) (inverse : List Item) (chained : Bool) : Item :=
  .block ⟨k.call, k.body, inverse, chained⟩

def further : List Clause → List Item → List Item
  | [], last => last
  | k :: rest, last => [k.item (further rest last) true]

/-- The clause with one parent step less in its condition. -/
def lowered (k : Clause) : Clause :=
  { k with reference := { k.reference with up := k.reference.up - 1 } }

def met (f : Frame) (this : Value) (k : Clause) : Bool := !(f.find this k.reference).2.isEmpty

end Clause

section
variable {σ : Type} {f : Frame} {this : Value}

theorem Renderer.render_singleton (r : Renderer σ) (f : Frame) (this : Value) (item : Item) :
    r.render f this [item] = r.renderItem f this item := by
  simp [render]

theorem Renderer.renderItem_clause (r : Renderer σ) (f : Frame) (this : Value) (k : Clause)
    (inverse : List Item) (chained : Bool) :
    r.renderItem f this (k.item inverse chained) = (do
      let v ← r.refer f this k.reference k.invoke
      r.render (f.enter this "if" ⟨[]⟩ (some (k.body, inverse)) chained) this
        (if v.isEmpty then inverse else k.body)) := by
  have hparts (v : Value) : Builtin.parts? .ifBlock this [v] =
      some [if v.isEmpty then ⟨.inverse, this, none⟩ else ⟨.main, this, none⟩] := rfl
  rw [Clause.item, Clause.call, renderItem]
  simp only [callee, evalArgs, eval, evalHash, bind_assoc, pure_bind, List.nil_append]
  refine bind_congr fun v => ?_
  rw [invoke_some (hparts v)]
  cases v.isEmpty <;> simp [Render.parts, Value.text] <;> rfl

namespace Frame

def inChain (f : Frame) (this : Value) : Frame := f.enter this "if" ⟨[]⟩ none false

theorem enter_aligned (f : Frame) (this : Value) (bodies : Option (List Item × List Item)) :
    (f.enter this "if" ⟨[]⟩ bodies false).Aligned (f.inChain this) := ⟨rfl, rfl⟩

theorem enter_chained_aligned (f : Frame) (this : Value) (bodies : Option (List Item × List Item)) :
    ((f.inChain this).enter this "if" ⟨[]⟩ bodies true).Aligned (f.inChain this) := ⟨rfl, rfl⟩

/-- A reference leads one level less far from outside of the chain. -/
theorem find_inChain (f : Frame) (this : Value) (k : Clause) :
    (f.inChain this).find this k.reference = f.find this k.lowered.reference := by
  obtain ⟨⟨data, up, names⟩, invoke, body⟩ := k
  cases data with
  | true => cases up <;> rfl
  | false =>
    match up with
    | 0 | 1 | _ + 2 => rfl

end Frame

section
variable (host : Host σ) (partial? : Dict Target → String → Option Template) (depth : Nat)

theorem Clause.item_ends (hf : f.FunctionFree) (hthis : this.FunctionFree) (k : Clause)
    (inverse : List Item) (chained : Bool) (world : World σ) :
    ((renderer host partial? depth).renderItem f this (k.item inverse chained)).ends world =
      ((renderer host partial? depth).render (f.enter this "if" ⟨[]⟩ (some (k.body, inverse)) chained)
        this (if k.met f this then k.body else inverse)).ends world := by
  rw [Renderer.renderItem_clause]
  refine ((Renderer.refer_looks hf hthis k.reference k.invoke).ends ?_ world).trans ?_
  · exact renderer_render_alike host partial? depth _ this _
  · unfold met
    cases (f.find this k.reference).2.isEmpty <;> rfl

/-- Inside of the chain the first condition counts that is met. -/
theorem Clause.further_ends (hf : f.FunctionFree) (hthis : this.FunctionFree) (rest : List Clause)
    (last : List Item) (world : World σ) :
    ((renderer host partial? depth).render (f.inChain this) this (further rest last)).ends world =
      ((renderer host partial? depth).render (f.inChain this) this
        (((rest.find? fun k => k.lowered.met f this).map Clause.body).getD last)).ends world := by
  have hinner : (f.inChain this).FunctionFree := hf.enter hthis "if" .nil none false
  induction rest with
  | nil => rfl
  | cons k rest ih =>
    have hmet : k.met (f.inChain this) this = k.lowered.met f this := by
      unfold met
      rw [f.find_inChain this k]
    have haligned := (f.enter_chained_aligned this (some (k.body, further rest last))).symm
    rw [further, Renderer.render_singleton, Clause.item_ends host partial? depth hinner hthis,
      ← haligned.render hinner hthis, hmet, List.find?_cons]
    cases k.lowered.met f this with
    | true => rfl
    | false => exact ih

/-- A chain renders what the first clause does on its own whose condition is met, if all conditions but
the first one are taken with one parent step less. -/
theorem Clause.chain_ends (hf : f.FunctionFree) (hthis : this.FunctionFree) (first : Clause)
    (rest : List Clause) (last : List Item) (world : World σ) :
    ((renderer host partial? depth).renderItem f this
        (first.item (further rest last) false)).ends world =
      match (first :: rest.map lowered).find? (met f this) with
      | some k => ((renderer host partial? depth).renderItem f this (k.item [] false)).ends world
      | none =>
        ((renderer host partial? depth).renderItem f this
          (({ first with body := [] } : Clause).item last false)).ends world := by
  have hinner : (f.inChain this).FunctionFree := hf.enter hthis "if" .nil none false
  have hitem (k : Clause) (inverse : List Item) := (Clause.item_ends host partial? depth hf hthis k
    inverse false world).trans (congrArg (Render.ends · world)
      ((f.enter_aligned this _).symm.render hinner hthis _ _).symm)
  rw [hitem, List.find?_cons]
  cases hfirst : first.met f this with
  | true =>
    dsimp only
    rw [hitem, hfirst]
    rfl
  | false =>
    dsimp only
    rw [List.find?_map]
    refine (Clause.further_ends host partial? depth hf hthis rest last world).trans ?_
    change (Render.ends (Renderer.render _ _ _
      (((rest.find? (met f this ∘ lowered)).map Clause.body).getD last)) world) = _
    cases hfound : rest.find? (met f this ∘ lowered) with
    | none =>
      have hnone : ({ first with body := [] } : Clause).met f this = false := hfirst
      dsimp only [Option.map_none]
      rw [hitem, hnone]
      rfl
    | some k =>
      have hsome := List.find?_some hfound
      rw [Function.comp_apply] at hsome
      dsimp only [Option.map_some]
      rw [hitem, hsome]
      rfl

end
end

namespace Clause

/-- A clause as it is written: behind the name of the block there is one argument, a reference. -/
structure Written (c : Catalog) where
  condition : List Char
  reference : Reference
  invoke : Bool
  reads : ReadsArguments c.dialect condition [.positional (.reference reference invoke)]
  body : Snippet c

namespace Written
variable {c : Catalog}

def clause (w : Written c) : Clause := ⟨w.reference, w.invoke, w.body.items⟩

def opening (w : Written c) : List Char :=
  "#if".toList ++ (w.condition ++ ['\x7d', '\x7d'])

def further : List (Written c) → Snippet c → List Char
  | [], last => Path.ifWord.ending (some last)
  | w :: rest, last =>
    "\x7b\x7belse if".toList ++ (w.condition ++ ("\x7d\x7d".toList ++ (w.body.source ++
      further rest last)))

def chain (first : Written c) (rest : List (Written c)) (last : Snippet c) : List Char :=
  '\x7b' :: '\x7b' :: (first.opening ++ (first.body.source ++ further rest last))

def alone (w : Written c) : List Char := Path.ifWord.block w.condition w.body none

def otherwise (w : Written c) (last : Snippet c) : List Char :=
  Path.ifWord.block w.condition (.empty c) (some last)

variable (hif : c.dialect.helpers.get? "if" = some (.builtin .ifBlock))
include hif

theorem call_ifWord (w : Written c) :
    Path.ifWord.call c.dialect [.positional (.reference w.reference w.invoke)] = w.clause.call :=
  Path.call_ofName Path.ifWord.isName hif _

theorem allowed_ifWord (w : Written c) :
    (Path.ifWord.call c.dialect [.positional (.reference w.reference w.invoke)]).Allowed c.dialect :=
  Call.allowed_of_helper (congrArg Call.head (call_ifWord hif w)) c.dialect

theorem reads_opening (w : Written c) (place : Option Branch) (more : List Char) :
    Reads c.dialect place (w.opening ++ more) (.opening w.clause.call) more := by
  have hreads := Stencil.reads_opening .ifWord place (allowed_ifWord hif w) w.reads more
  rw [call_ifWord hif w] at hreads
  have happend : w.opening ++ more =
      '#' :: (Path.ifWord.text ++ (w.condition ++ '\x7d' :: '\x7d' :: more)) := by
    unfold opening
    rw [List.append_assoc, List.append_assoc]
    rfl
  rw [happend]
  exact hreads

theorem reads_further (w : Written c) (more : List Char) :
    Reads c.dialect (some .main)
      ("else if".toList ++ (w.condition ++ ("\x7d\x7d".toList ++ more)))
      (.otherwiseOpening w.clause.call) more := by
  have hblanks : ∀ x ∈ [' '], Text.isBlank x = true := List.all_eq_true.1 rfl
  have hreads := reads_otherwiseOpening .ifWord (List.cons_ne_nil _ _) hblanks (allowed_ifWord hif w)
    w.reads more
  rw [call_ifWord hif w] at hreads
  exact hreads

omit hif in
theorem further_begins (rest : List (Written c)) (last : Snippet c) :
    BeginsTag (further rest last) := by
  cases rest with
  | nil => exact ⟨_, rfl, fun _ => congrArg Opener.trims (opener_else _)⟩
  | cons w rest => exact ⟨_, rfl, fun _ => congrArg Opener.trims (opener_else _)⟩

theorem read_further (rest : List (Written c)) (last : Snippet c) {items : List Item} {b : OpenBlock}
    {outer blocks : List OpenBlock} {item : Item} (hbranch : b.branch = .main)
    (hinverse : b.inverse = [])
    (hclose : { b with inverse := Clause.further (rest.map clause) last.items }.close "if" outer =
      .ok (item, blocks)) (more : List Char) :
    c.read ⟨items, b :: outer⟩ false (further rest last ++ more) =
      c.read (Draft.push item ⟨items, blocks⟩) false more := by
  induction rest generalizing b outer with
  | nil =>
    exact Path.ifWord.read_ending hbranch hinverse (some last) hclose more
  | cons w rest ih =>
    obtain ⟨call, chained, branch, body, inverse⟩ := b
    cases hbranch
    cases hinverse
    have happend : further (w :: rest) last ++ more =
        '\x7b' :: '\x7b' :: ("else if".toList ++ (w.condition ++ ("\x7d\x7d".toList ++
          (w.body.source ++ (further rest last ++ more))))) := by
      change "\x7b\x7belse if".toList ++ (w.condition ++ ("\x7d\x7d".toList ++ (w.body.source ++
        further rest last))) ++ more = _
      simp only [List.append_assoc]
      rfl
    have hplace : (Draft.mk items (⟨call, chained, .main, body, []⟩ :: outer)).place = some .main :=
      rfl
    have hreads := reads_further hif w (w.body.source ++ (further rest last ++ more))
    rw [← hplace] at hreads
    have hbody := w.body.read
      ⟨items, ⟨w.clause.call, true, .main, [], []⟩ :: ⟨call, chained, .inverse, body, []⟩ :: outer⟩
      (further_begins rest last) more
    rw [Draft.pushAll_main rfl] at hbody
    rw [happend]
    refine ((hreads.goOn rfl).trans hbody).trans ?_
    refine ih rfl rfl ?_
    rw [OpenBlock.close, if_pos rfl, ← hclose]
    exact Draft.close_branch "if"
      ⟨call, chained, .main, body, Clause.further (w.clause :: rest.map clause) last.items⟩ .inverse
      outer

/-- A chain is read as the block of its first clause, with the others in its inverse body. -/
theorem readsAs_chain (first : Written c) (rest : List (Written c)) (last : Snippet c) :
    ReadsAs c (chain first rest last)
      (first.clause.item (Clause.further (rest.map clause) last.items) false) := by
  refine readsAs_block (reads_opening hif first) first.body (further_begins rest last)
    fun items outer more => ?_
  refine read_further hif rest last rfl rfl ?_ more
  cases outer <;> rfl

theorem readsAs_alone (w : Written c) : ReadsAs c w.alone (w.clause.item [] false) := by
  have hreads := Path.ifWord.readsAs_call w.body none (allowed_ifWord hif w) w.reads
  rwa [call_ifWord hif w] at hreads

theorem readsAs_otherwise (w : Written c) (last : Snippet c) :
    ReadsAs c (w.otherwise last) (({ w.clause with body := [] } : Clause).item last.items false) := by
  have hreads := Path.ifWord.readsAs_call (.empty c) (some last) (allowed_ifWord hif w) w.reads
  rwa [call_ifWord hif w] at hreads

/-- At every spot of a source a chain may be exchanged for a single block, and it renders what one of
these does: the block of the first clause whose condition is met, or else the one with the last body.
But all conditions but the first count with one parent step less, so a parent step in them leads one
level less far than it does in a block of its own. -/
theorem render_chain (first : Written c) (rest : List (Written c)) (last : Snippet c) (spot : Spot c) :
    let item := first.clause.item (Clause.further (rest.map clause) last.items) false
    let source := spot.fill (chain first rest last)
    (∀ w : Written c,
      c.Exchanges item (w.clause.item [] false) source (spot.fill w.alone)) ∧
    c.Exchanges item (({ first.clause with body := [] } : Clause).item last.items false) source
      (spot.fill (first.otherwise last)) ∧
    ∀ {σ : Type} (host : Host σ) (partial? : Dict Target → String → Option Template) (depth : Nat)
      (f : Frame) (this : Value), f.FunctionFree → this.FunctionFree → ∀ world : World σ,
        ((renderer host partial? depth).renderItem f this item).ends world =
          match (first.clause :: (rest.map clause).map lowered).find? (met f this) with
          | some k => ((renderer host partial? depth).renderItem f this (k.item [] false)).ends world
          | none =>
            ((renderer host partial? depth).renderItem f this
              (({ first.clause with body := [] } : Clause).item last.items false)).ends world := by
  intro item source
  have hchain := readsAs_chain hif first rest last
  refine ⟨fun w => spot.exchanges hchain (readsAs_alone hif w),
    spot.exchanges hchain (readsAs_otherwise hif first last), ?_⟩
  intro σ host partial? depth f this hf hthis world
  exact chain_ends host partial? depth hf hthis first.clause (rest.map clause) last.items world

omit hif in
def ofReference {r : Reference} (h : ∀ name ∈ r.names, InBrackets name) (body : Snippet c) :
    Written c where
  condition := ' ' :: r.print
  reference := r
  invoke := !c.dialect.noFunctionValues
  reads := by
    have hlegible : Legible c.dialect (c.dialect.reference r).print (c.dialect.reference r) :=
      legible_reference c.dialect h
    have hargument : LegibleArgument c.dialect (.positional (c.dialect.reference r)) :=
      legible_positional hlegible
    exact hargument.reads
  body := body

end Written

theorem inBrackets_letter {x : Char} (hx : x ≠ ']') :
    ∀ name ∈ [String.ofList [x]], InBrackets name := by
  intro name hname
  rw [List.mem_singleton.1 hname]
  unfold InBrackets
  rw [String.toList_ofList]
  exact ⟨List.cons_ne_nil _ _, fun h => hx (List.mem_singleton.1 h).symm⟩

def onMissing : Written Catalog.initial :=
  .ofReference (r := ⟨false, 0, ["n"]⟩) (inBrackets_letter (x := 'n') (by decide)) (.letter _ 'A' rfl)

def onOuter : Written Catalog.initial :=
  .ofReference (r := ⟨false, 1, ["x"]⟩) (inBrackets_letter (x := 'x') (by decide)) (.letter _ 'B' rfl)

theorem reads_within :
    Reads Catalog.initial.dialect none "#with a\x7d\x7d".toList
      (.opening ⟨"with", .helper (.builtin .withBlock), [.reference ⟨false, 0, ["a"]⟩ true], []⟩) [] :=
  reads_opening (Path.ofName "with".toList rfl) none (Call.allowed_of_helper rfl _)
    (readsArguments_path Catalog.initial.dialect (Path.ofName ['a'] rfl)) []

def within : Spot Catalog.initial := .inBlock reads_within "\x7b\x7b/with\x7d\x7d".toList

/-- The parent step leads out of the chain only, so the second condition is not met. In a block of its
own it leads out of the block around and is met. -/
theorem Written.render_chain_parent :
    let item := onMissing.clause.item (Clause.further [onOuter.clause] [.text "C"]) false
    let source := "\x7b\x7b#with a\x7d\x7d\x7b\x7b#if ./[n]\x7d\x7dA" ++
      "\x7b\x7belse if ../[x]\x7d\x7dB\x7b\x7belse\x7d\x7dC\x7b\x7b/if\x7d\x7d\x7b\x7b/with\x7d\x7d"
    let alone := "\x7b\x7b#with a\x7d\x7d\x7b\x7b#if ../[x]\x7d\x7dB" ++
      "\x7b\x7b/if\x7d\x7d\x7b\x7b/with\x7d\x7d"
    let root : Value := .object ⟨[("a", .object ⟨[]⟩), ("x", .bool true)]⟩
    let f := (Frame.root root ⟨[]⟩ ⟨[]⟩).enter root "with" ⟨[]⟩ none false
    let r := renderer (fun _ _ => .done .null : Host Unit) (fun _ _ => none) 0
    Catalog.initial.Exchanges item (onOuter.clause.item [] false) source alone ∧
      (r.renderItem f (.object ⟨[]⟩) item).ends ⟨(), []⟩ = some (.ok "C", ()) ∧
      (r.renderItem f (.object ⟨[]⟩) (onOuter.clause.item [] false)).ends ⟨(), []⟩ =
        some (.ok "B", ()) := by
  intro item source alone root f r
  have hroot : root.FunctionFree :=
    .object (.cons (.mk "a" (.object .nil)) (.cons (.mk "x" (.bool true)) .nil))
  have hf : f.FunctionFree := .enter (.root hroot .nil ⟨[]⟩) hroot "with" .nil none false
  have hsource : within.fill (chain onMissing [onOuter] (.letter _ 'C' rfl)) = source := rfl
  have halone : within.fill onOuter.alone = alone := rfl
  obtain ⟨hexchanges, -, hends⟩ :=
    render_chain (c := Catalog.initial) rfl onMissing [onOuter] (.letter _ 'C' rfl) within
  refine ⟨?_, ?_, ?_⟩
  · rw [← hsource, ← halone]
    exact hexchanges onOuter
  · exact (hends _ _ _ f _ hf (.object .nil) _).trans rfl
  · rfl

end Clause

end Stencil
