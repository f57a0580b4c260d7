import Stencil.Proofs.Draws
import Stencil.Proofs.Inclusions

set_option autoImplicit false

/-!
# Calls after other calls

The options of a call are laid over the environment for that call. What earlier calls leave behind
are partials that they compiled, each the way its own call read the source. They make no difference
to a call that would compile these partials to the same.
-/
namespace Stencil
namespace Session

/-- The sessions that calls in an environment lead to, whatever their options are and whether they
succeed or not. In between, templates are compiled on their own, and held or dropped. -/
inductive Calls (first : Session) : Session → Prop
  | none : Calls first first
  | compileUncached {s : Session} (h : Calls first s) (source : String) {o : Options}
    (ho : ∀ id, Partial.compiled id ∈ o.partials.values → s.AtHand first.library.next id) :
    Calls first (compileUncached source o s).2
  | compile {s : Session} (h : Calls first s) (source : String) {o : Options}
    (ho : ∀ id, Partial.compiled id ∈ o.partials.values → s.AtHand first.library.next id) :
    Calls first (Session.compile source o s).2
  | render {s s' : Session} (h : Calls first s) {source : String} {o : Options}
    (ho : ∀ id, Partial.compiled id ∈ o.partials.values → s.AtHand first.library.next id)
    {σ : Type} {host : Host σ} {depth : Nat} {context : Value} {state state' : σ}
    {result : Except TemplateError String}
    (hrender : s.render host depth source context o state = some (result, state', s')) :
    Calls first s'
  | template {s : Session} (h : Calls first s) {source : String} {t : Template}
    (ht : Template.ofSource source = .ok t) : Calls first { s with library := s.library.add t }
  | hold {s : Session} (h : Calls first s) (elsewhere : List TemplateId)
    (hold : first.heldElsewhere ⊆ elsewhere)
    (hnew : ∀ id ∈ elsewhere, s.AtHand first.library.next id) :
    Calls first { s with heldElsewhere := elsewhere }

variable {l : Library} {base : List TemplateId} {first s : Session} {o : Options} {source : String}

namespace Upon

theorem template (h : s.Upon l base) {t : Template} (ht : Template.ofSource source = .ok t) :
    ({ s with library := s.library.add t }).Upon l base := by
  have hlinks := Template.links_ofSource ht
  refine ⟨⟨h.numbered.library.add ?_, h.numbered.environment.mono (Nat.le_succ _),
    fun id hid => Nat.lt_succ_of_lt (h.numbered.elsewhere id hid)⟩, h.draws.add ?_, h.old, h.drawn⟩
  · rw [hlinks]
    exact nofun
  · rw [hlinks]
    exact nofun

theorem hold (h : s.Upon l base) {elsewhere : List TemplateId}
    (hold : base ⊆ s.environment.held ++ elsewhere)
    (hnew : ∀ id ∈ elsewhere, s.AtHand l.next id) :
    ({ s with heldElsewhere := elsewhere }).Upon l base := by
  refine ⟨⟨h.numbered.library, h.numbered.environment, fun id hid => h.lt_of_atHand (hnew id hid)⟩,
    h.draws, hold, fun id hid => ?_⟩
  rcases List.mem_append.1 hid with hid | hid
  · exact h.drawn id (List.mem_append_left _ hid)
  · exact h.drawn_of_atHand (hnew id hid)

theorem under (h : s.Upon l base)
    (ho : ∀ id, Partial.compiled id ∈ o.partials.values → id ∈ s.held) :
    (s.under o).Upon l base := by
  refine ⟨h.numbered.under fun id hid => h.numbered.held (ho id hid), h.draws,
    fun id hid => List.mem_append_right _ (h.old hid), fun id hid => ?_⟩
  rcases List.mem_append.1 hid with hid | hid
  · exact h.drawn id (mem_held_of_under ho hid)
  · exact h.drawn id hid

end Upon

/-- Calls compile partials in place, and draw on nothing but what was there. -/
theorem Calls.upon (hs : first.Numbered) (hl : first.library.Bounded) (h : Calls first s) :
    s.Upon first.library first.held ∧ first.environment.Memoizes s.environment := by
  induction h with
  | none => exact ⟨.refl hs hl, .refl _⟩
  | compileUncached _ source ho ih =>
    exact ⟨(ih.1.compileUncached ho source).1,
      ih.2.trans (compileUncached_memoizes ih.1.numbered.environment.partials source _)⟩
  | compile _ source ho ih =>
    exact ⟨ih.1.compile ho source,
      ih.2.trans (compile_memoizes ih.1.numbered.environment.partials source _)⟩
  | @render _ _ _ source o ho _ _ _ _ _ _ _ hrender ih =>
    obtain ⟨events, rfl⟩ := render_session hrender
    exact ⟨(ih.1.compile ho source).withEvents events,
      ih.2.trans (compile_memoizes ih.1.numbered.environment.partials source o)⟩
  | template _ ht ih => exact ⟨ih.1.template ht, ih.2⟩
  | hold _ elsewhere hold hnew ih =>
    have hheld := ih.2.held hs.environment.partials ih.1.numbered.environment.partials
    refine ⟨ih.1.hold (fun id hid => ?_) hnew, ih.2⟩
    rcases List.mem_append.1 hid with hid | hid
    · exact List.mem_append_left _ (hheld hid)
    · exact List.mem_append_right _ (hold hid)

/-- Whatever calls were made before on an environment, a call comes to what it would have come to
without them, if each partial that comes up, and that they left compiled, is up to date for the
call. -/
theorem outcome_after_calls (hs : first.Numbered) (hl : first.library.Bounded)
    (h : Calls first s) (ho : ∀ id, Partial.compiled id ∈ o.partials.values → id ∈ first.held)
    (hcurrent : ∀ name, (first.environment.dialect o).Involves
      (first.environment.overlaid o).waiting source name → ∀ text id,
        (first.environment.overlaid o).partials.get? name = some (.source text) →
          (s.environment.overlaid o).partials.get? name = some (.compiled id) →
            s.UpToDate o text id)
    {σ : Type} (host : Host σ) (depth : Nat) (context : Value) (state : σ) :
    s.outcome host depth false source context o state =
      first.outcome host depth false source context o state := by
  obtain ⟨hupon, hmemoizes⟩ := h.upon hs hl
  have hold (id : TemplateId) (hid : Partial.compiled id ∈ o.partials.values) : id ∈ s.held :=
    hupon.old (ho id hid)
  have hunder : (s.under o).Upon (first.under o).library first.held := hupon.under hold
  have hunder' : (first.under o).Upon (first.under o).library first.held :=
    (Upon.refl hs hl).under ho
  have hdialect : s.environment.dialect o = first.environment.dialect o := hmemoizes.dialect o
  have hsame : (first.under o).environment.dialect o.flags =
      (s.under o).environment.dialect o.flags := hdialect.symm
  unfold outcome
  rw [if_neg Bool.false_ne_true,
    rendered_under host depth context o.data state hupon.numbered hold,
    rendered_under host depth context o.data state hs ho]
  refine hunder.rendered_eq hunder' (fun _ => hs.held) rfl rfl hsame (hmemoizes.overlaid o).partials
    (fun name hname => ?_) host depth context o.data state
  change (s.environment.dialect o).Involves (first.environment.overlaid o).waiting source name
    at hname
  rw [hdialect] at hname
  exact hcurrent name hname

end Session

theorem isPlain_old : IsPlain "old".toList := by simp [IsPlain]

theorem isPlain_new : IsPlain "new".toList := by simp [IsPlain]

namespace Session
variable {s : Session} {o : Options}

section
variable {text name : String} {id : TemplateId} {target : Target}

theorem upToDate_plain (h : IsPlain text.toList) (hne : text.toList ≠ [])
    (hid : s.library.get? id = some ⟨text, [.text text], ⟨[]⟩⟩) : s.UpToDate o text id := by
  have houtline := ofSource_plain (s.environment.dialect o) h hne
  refine ⟨_, hid, ?_, fun other hother => ?_⟩
  · rw [houtline]
    rfl
  · rw [houtline] at hother
    cases hother

theorem upToDate_including (h : InBrackets name)
    (hid : s.library.get? id = some (includer name target))
    (hname : (s.environment.overlaid o).partials.get? name = some (.compiled target.id)) :
    s.UpToDate o (String.ofList (including name)) id := by
  obtain ⟨left, houtline⟩ := ofSource_including (s.environment.dialect o) h
  refine ⟨_, hid, ?_, fun other hother => ?_⟩
  · rw [houtline]
    rfl
  · rw [houtline] at hother
    cases List.mem_singleton.1 hother
    exact ⟨target, if_pos rfl, hname⟩

end

/-- A call that keeps a partial which an earlier one compiled, and reads the source the same. -/
theorem outcome_after_calls_again :
    let a := String.ofList (including "b")
    let source := String.ofList (including "a")
    let first : Session :=
      { environment := { partials := ⟨[("a", .source a), ("b", .source "old")]⟩ } }
    let s := (Session.compileUncached source {} first).2
    let o : Options := { knownHelpersOnly := some true }
    Calls first s ∧ s.environment.partials.get? "a" = some (.compiled 0) ∧
      ∀ {σ : Type} (host : Host σ) (depth : Nat) (context : Value) (state : σ),
        s.outcome host depth false source context o state =
          first.outcome host depth false source context o state := by
  intro a source first s o
  obtain ⟨hname, hname'⟩ := inBrackets_ab
  have hs : first.Numbered := by
    refine ⟨nofun, ⟨?_, ?_, nofun⟩, nofun⟩
    · change ["a", "b"].Nodup
      decide
    · intro id hid
      change Partial.compiled id ∈ [.source a, .source "old"] at hid
      simp at hid
  have hcompile := compileUncached_ok rfl (compile_nested (d := first.environment.dialect {})
    (s := first.shelf []) rfl rfl hname hname' rfl rfl isPlain_old (by decide) rfl rfl)
  have hs' : s = _ := congrArg Prod.snd hcompile
  have hcalls : Calls first s := .compileUncached .none source (atHand_of_overlay rfl first _)
  rw [hs'] at hcalls ⊢
  have hnone (id : TemplateId) (hid : Partial.compiled id ∈ o.partials.values) : id ∈ first.held :=
    absurd hid List.not_mem_nil
  refine ⟨hcalls, rfl, fun host depth context state => outcome_after_calls hs nofun hcalls hnone
    (fun name _ text id hsource hid => ?_) host depth context state⟩
  have hmem : (name, Partial.source text) ∈ [("a", .source a), ("b", .source "old")] :=
    Dict.mem_of_firstEntry hsource
  rw [List.mem_cons, List.mem_singleton] at hmem
  rcases hmem with heq | heq
  · cases heq
    cases hid
    exact upToDate_including hname' rfl rfl
  · cases heq
    cases hid
    exact upToDate_plain isPlain_old (by decide) rfl

/-- A partial that was compiled before goes on to include what was registered then. A call that
comes with another one is too late. -/
theorem outcome_after_calls_overlaid :
    let a := String.ofList (including "b")
    let source := String.ofList (including "a")
    let first : Session :=
      { environment := { partials := ⟨[("a", .source a), ("b", .source "old")]⟩ } }
    let s := (Session.compileUncached source {} first).2
    let o : Options := { partials := ⟨[("b", .source "new")]⟩ }
    Calls first s ∧
      ∀ {σ : Type} (host : Host σ) (depth : Nat) (context : Value) (state : σ),
        s.outcome host (depth + 2) false source context o state = .ok (some (.ok "old", state)) ∧
          first.outcome host (depth + 2) false source context o state =
            .ok (some (.ok "new", state)) := by
  intro a source first s o
  obtain ⟨hname, hname'⟩ := inBrackets_ab
  have hcompile := compileUncached_ok rfl (compile_nested (d := first.environment.dialect {})
    (s := first.shelf []) rfl rfl hname hname' rfl rfl isPlain_old (by decide) rfl rfl)
  have hs : s = _ := congrArg Prod.snd hcompile
  have hcalls : Calls first s := .compileUncached .none source (atHand_of_overlay rfl first _)
  rw [hs] at hcalls ⊢
  refine ⟨hcalls, fun host depth context state => ?_⟩
  have hbefore : Stencil.compile (first.environment.dialect o)
      (first.environment.overlaid o).waiting source (first.shelfUnder o) = _ :=
    compile_nested rfl rfl hname hname' rfl rfl isPlain_new (by decide) rfl rfl
  have hafter (d : Dialect) (shelf : Shelf) (hnone : shelf.inProgress.get? "a" = none)
      (hid : shelf.compiled.get? "a" = some 0) (waiting : Dict String) :
      Stencil.compile d waiting source shelf = (.ok (includer "a" (.compiled 0)), shelf) :=
    compile_including hname (resolve_compiled hnone hid)
  unfold outcome
  rw [if_neg Bool.false_ne_true, compileUncached_eq, compileUncached_eq, hbefore,
    hafter _ _ rfl rfl]
  exact ⟨rfl, rfl⟩

end Session
end Stencil
