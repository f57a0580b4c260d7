import Mathlib
import Stencil.Proofs.Entities
import Stencil.Proofs.Indifference

set_option autoImplicit false

/-!
# Output without markup

A template with built-in helpers puts nothing into its text unescaped but its own text, unless it is
told to. So the values that it renders add no markup.
-/
namespace Stencil

def Html.Harmless (text : String) : Prop :=
  ∀ c ∈ text.toList, c ≠ '<' ∧ c ≠ '>' ∧ c ≠ '"' ∧ c ≠ '\''

instance (text : String) : Decidable (Html.Harmless text) :=
  List.decidableBAll _ text.toList

namespace Html

theorem harmless_cleanly : Cleanly False Harmless where
  empty := nofun
  append := fun ha hb c hc => by
    rw [String.toList_append, List.mem_append] at hc
    exact hc.elim (ha c) (hb c)
  escaped := fun _ _ => ne_of_mem_escape
  safe := False.elim

end Html

inductive Value.Plain : Value → Prop
  | undefined : Plain .undefined
  | null : Plain .null
  | bool (b : Bool) : Plain (.bool b)
  | number (x : Float) : Plain (.number x)
  | string (text : String) : Plain (.string text)
  | array {items : List Value} (h : ∀ item ∈ items, Plain item) : Plain (.array items)
  | object {fields : Object} (h : ∀ entry ∈ fields.entries, Plain entry.2) : Plain (.object fields)

theorem Value.Plain.resembles {v : Value} (h : v.Plain) : v.Resembles False False v := by
  induction h with
  | undefined => exact .undefined
  | null => exact .null
  | bool b => exact .bool b
  | number x => exact .number x
  | string text => exact .string text
  | array _ ih => exact .array (List.forall₂_same.2 ih)
  | object _ ih => exact .object (List.forall₂_same.2 fun entry hentry => .mk entry.1 (ih entry hentry))

/-- An item without tags that leave values unescaped, without blocks of the helper that looks values
up, and whose own text is harmless. -/
inductive Item.Guarded : Item → Prop
  | text {text : String} (h : Html.Harmless text) : Guarded (.text text)
  | escaped (e : Expr) : Guarded (.escaped e)
  | block {b : Block Item} (head : b.call.head ≠ .helper (.builtin .lookup))
    (body : ∀ item ∈ b.body, Guarded item) (inverse : ∀ item ∈ b.inverse, Guarded item) :
    Guarded (.block b)
  | inclusion (i : Inclusion) : Guarded (.inclusion i)

theorem Item.From.fits_harmless {d : Dialect} (hd : d.BuiltinsOnly) {item : Item} (h : item.From d)
    (hguarded : item.Guarded) : item.Fits False Html.Harmless := by
  induction h with
  | text text =>
    cases hguarded with
    | text htext => exact .text htext
  | escaped he => exact .escaped (he.fits hd False.elim)
  | unescaped => cases hguarded
  | @block b hcall hknown hbody hinverse ihbody ihinverse =>
    cases hguarded with
    | block hhead hbody' hinverse' =>
      exact .block (hcall.head_fits hknown hd False.elim fun heq => absurd heq hhead)
        (fun e he => (hcall.args e he).fits hd False.elim)
        (fun entry hentry => (hcall.hash entry hentry).fits hd False.elim)
        (fun item hitem => ihbody item hitem (hbody' item hitem))
        fun item hitem => ihinverse item hitem (hinverse' item hitem)
  | inclusion hargs hhash =>
    exact .inclusion (fun e he => (hargs e he).fits hd False.elim)
      fun entry hentry => (hhash entry hentry).fits hd False.elim

namespace Template

/-- The templates that rendering a template may come to: itself, and what these include. -/
inductive Involves (partial? : Dict Target → String → Option Template) (t : Template) :
    Template → Prop
  | itself : Involves partial? t t
  | included {u v : Template} {name : String} (h : Involves partial? t u)
    (hname : name ∈ includes u.items) (hv : partial? u.links name = some v) : Involves partial? t v

/-- A template whose text is harmless, and which calls built-in helpers only, renders to a harmless
text whatever is in its context: values get there escaped. -/
theorem render_harmless {σ : Type} {partial? : Dict Target → String → Option Template} {t : Template}
    (hbuiltins : ∀ u, t.Involves partial? u → ∃ d : Dialect, d.BuiltinsOnly ∧ u.Compiled d)
    (hguarded : ∀ u, t.Involves partial? u → ∀ item ∈ u.items, item.Guarded)
    {context : Value} (hcontext : context.Plain) {seed : Object}
    (hseed : ∀ entry ∈ seed.entries, entry.2.Plain) {host : Host σ} {depth : Nat}
    {world world' : World σ} {text : String}
    (h : (t.render host partial? depth context seed).run world = some (.ok text, world')) :
    Html.Harmless text := by
  have hincluded (u : Template) (hu : t.Involves partial? u) :
      (∀ item ∈ u.items, item.Fits False Html.Harmless) ∧
        ∀ name ∈ includes u.items, ∀ v, partial? u.links name = some v → t.Involves partial? v := by
    obtain ⟨d, hd, hcompiled⟩ := hbuiltins u hu
    exact ⟨fun item hitem => (hcompiled.from item hitem).fits_harmless hd (hguarded u hu item hitem),
      fun name hname v hv => .included hu hname hv⟩
  have hseed' : seed.Resembles False False seed :=
    List.forall₂_same.2 fun entry hentry => .mk entry.1 (hseed entry hentry).resembles
  have hagree := Template.render_agrees Html.harmless_cleanly hincluded .itself host host depth
    hcontext.resembles hseed'
  change t.render host partial? depth context seed ⟨world.state, world.events⟩ = _ at h
  cases hagree with
  | tooDeep _ hx => rw [hx world.state world.events] at h; cases h
  | error hx => rw [hx world.state world.events] at h; cases h
  | ok hsame hx =>
    rw [hx world.state world.events] at h
    cases h
    exact hsame.2

def listing : Template where
  source := "\x7b\x7b#each this\x7d\x7d\x7b\x7b@key\x7d\x7d\x7b\x7b/each\x7d\x7d"
  items := [.block
    { call := ⟨"each", .helper (.builtin .eachBlock), [.reference ⟨false, 0, []⟩ true], []⟩
      body := [.escaped (.reference ⟨true, 0, ["key"]⟩ true)]
      inverse := [], chained := false }]
  links := ⟨[]⟩

theorem ofSource_listing : ofSource listing.source = .ok listing := by cbv

def markedUp : Value := .object ⟨[("<b>", .null), ("'i'", .string "</b>")]⟩

theorem render_listing {σ : Type} (host : Host σ) (depth : Nat) (world : World σ) :
    (listing.render host (fun _ _ => none) depth markedUp ⟨[]⟩).run world =
      some (.ok "&lt;b&gt;&#39;i&#39;", world) := rfl

/-- Markup in keys comes out escaped. -/
theorem render_harmless_keys :
    ofSource listing.source = .ok listing ∧
      ∀ {σ : Type} (host : Host σ) (depth : Nat) (world : World σ),
        (listing.render host (fun _ _ => none) depth markedUp ⟨[]⟩).run world =
          some (.ok "&lt;b&gt;&#39;i&#39;", world) ∧ Html.Harmless "&lt;b&gt;&#39;i&#39;" := by
  refine ⟨ofSource_listing, fun host depth world => ⟨render_listing host depth world, ?_⟩⟩
  have hplain : markedUp.Plain :=
    .object (List.forall_mem_cons.2 ⟨.null, List.forall_mem_singleton.2 (.string _)⟩)
  have hitself (u : Template) (hu : listing.Involves (fun _ _ => none) u) : u = listing := by
    cases hu with
    | itself => rfl
    | included _ _ hv => cases hv
  refine render_harmless (fun u hu => ?_) (fun u hu => ?_) hplain (List.forall_mem_nil _)
    (render_listing host depth world)
  · rw [hitself u hu]
    exact ⟨_, fun _ _ => id, .ofSource rfl ofSource_listing⟩
  · rw [hitself u hu]
    exact List.forall_mem_singleton.2
      (.block (by decide) (List.forall_mem_singleton.2 (.escaped _)) (List.forall_mem_nil _))

end Template
end Stencil
