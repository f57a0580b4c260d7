import Stencil.Proofs.Inclusions
import Stencil.Proofs.Twins

set_option autoImplicit false

/-!
# What a failed compilation leaves

If a partial fails to compile, then the partials that were compiled on the way stay compiled. It
shows later on if one of them includes a partial that fails, and only then.
-/
namespace Stencil

/-- The partials that were compiled in between have names that can be written in brackets. -/
def Shelf.Gains (s s' : Shelf) : Prop :=
  ∀ name id, s'.compiled.get? name = some id →
    (∃ id, s.compiled.get? name = some id) ∨ InBrackets name

theorem Shelf.Gains.trans {s s' s'' : Shelf} (h : s.Gains s') (h' : s'.Gains s'') : s.Gains s'' := by
  intro name id hid
  rcases h' name id hid with ⟨id, hid⟩ | hname
  · exact h name id hid
  · exact .inr hname

theorem Outline.link_gains (source : String)
    {ask : String → StateM Shelf (Except TemplateError (Option Target))}
    (hask : ∀ name, InBrackets name → ∀ s : Shelf, s.Gains (ask name s).2) (outline : Outline)
    (hnames : ∀ name ∈ outline.asks, InBrackets name) (links : Dict Target) (s : Shelf) :
    s.Gains (outline.link source ask links s).2 := by
  induction outline generalizing links s with
  | finished items => exact fun name id hid => .inl ⟨id, hid⟩
  | failed f => exact fun name id hid => .inl ⟨id, hid⟩
  | asking name left next ih =>
    rw [asks, List.forall_mem_cons] at hnames
    have hfirst := hask name hnames.1 s
    generalize hr : ask name s = r at hfirst
    obtain ⟨answer, s'⟩ := r
    cases answer with
    | error e =>
      rw [link_error hr]
      exact hfirst
    | ok found =>
      cases found with
      | none =>
        rw [link_missing hr]
        exact hfirst
      | some target =>
        rw [link_some hr]
        exact hfirst.trans (ih hnames.2 _ s')

/-- Besides the partial itself, partials are compiled only because a source asks for them. -/
theorem resolve_gains (dialect : Dialect) (waiting : Dict String) (name : String) (s : Shelf)
    {other : String} {id : TemplateId}
    (hid : (resolve dialect waiting name s).2.compiled.get? other = some id) :
    (∃ id, s.compiled.get? other = some id) ∨ other = name ∨ InBrackets other := by
  induction waiting, name, s using resolve_induction dialect generalizing other id with
  | pending waiting name s id' hprogress heq =>
    rw [heq] at hid
    exact .inl ⟨id, hid⟩
  | compiled waiting name s id' hprogress hcompiled heq =>
    rw [heq] at hid
    exact .inl ⟨id, hid⟩
  | unknown waiting name s hprogress hcompiled hwaiting heq =>
    rw [heq] at hid
    exact .inl ⟨id, hid⟩
  | waits waiting name s source outcome s' hprogress hcompiled hwaiting ih hlink heq =>
    rw [heq] at hid
    have hask (asked : String) (hasked : InBrackets asked) (s' : Shelf) :
        s'.Gains (resolve dialect (waiting.erase name) asked s').2 := by
      intro other id hid
      rcases ih asked s' hid with hold | rfl | hother
      · exact .inl hold
      · exact .inr hasked
      · exact .inr hother
    have hgains := Outline.link_gains source hask (Outline.ofSource dialect source)
      (Outline.asks_inBrackets dialect source) ⟨[]⟩ (s.start name)
    rw [hlink] at hgains
    cases outcome with
    | error e => exact (hgains other id hid).imp_right .inr
    | ok t =>
      change (s'.stop name s.library.next (.ok t)).compiled.get? other = some id at hid
      rw [Shelf.compiled_stop] at hid
      split at hid
      · next heq => exact .inr (.inl heq.symm)
      · exact (hgains other id hid).imp_right .inr

namespace Session

/-- Asks for a partial by itself, and remembers what was compiled. -/
def resolve (name : String) (o : Options) (s : Session) :
    Except TemplateError (Option Target) × Session :=
  let (answer, shelf) :=
    Stencil.resolve (s.environment.dialect o) s.environment.waiting name (s.shelf [])
  (answer, s.close shelf shelf.library)

def register (name : String) (p : Partial) (s : Session) : Session :=
  { s with environment.partials := s.environment.partials.insert name p }

/-- Whatever the context, the data, the host and its state, nothing that comes of a source tells
the sessions apart. -/
def Agree (o : Options) (source : String) (s s' : Session) : Prop :=
  ∀ (σ : Type) (host : Host σ) (depth : Nat) (cached : Bool) (context : Value) (data : Object)
    (state : σ), s'.outcome host depth cached source context { o with data } state =
      s.outcome host depth cached source context { o with data } state

/-- Nothing that comes of a source tells the sessions apart, neither at once nor when the partial is
registered again, with a source or with a template that was there. -/
structure Untraced (name : String) (o : Options) (source : String) (s s' : Session) : Prop where
  now : Agree o source s s'
  anew : ∀ p, (∀ id, p = .compiled id → id < s.library.next) →
    Agree o source (s.register name p) (s'.register name p)

variable {s s' : Session} {o : Options} {name : String}

theorem resolve_answered (hd : s.environment.partials.Distinct) (o : Options) (name : String) :
    (s.origin o hd).Answered s.environment.waiting (s.shelf []) name
      (Stencil.resolve (s.environment.dialect o) s.environment.waiting name (s.shelf [])).1
      (Stencil.resolve (s.environment.dialect o) s.environment.waiting name (s.shelf [])).2 := by
  have hover : s.Over (s.origin o hd) fun _ => False := over_origin s o hd
  exact Origin.resolve_answered name hover.sound hover.waits fun _ => rfl

/-- What a partial that can be compiled asks for is fine. -/
theorem not_faulty_of_resolve (hd : s.environment.partials.Distinct) {source : String}
    (hsource : s.environment.waiting.get? name = some source) {answer : Option Target}
    (h : (s.resolve name o).1 = .ok answer) {other : String}
    (hother : other ∈ (Outline.ofSource (s.environment.dialect o) source).asks) :
    ¬ (s.origin o hd).Faulty other := by
  have hanswered := resolve_answered hd o name
  change (Stencil.resolve (s.environment.dialect o) s.environment.waiting name
    (s.shelf [])).1 = .ok answer at h
  generalize Stencil.resolve (s.environment.dialect o) s.environment.waiting name (s.shelf []) = r
    at h hanswered
  obtain ⟨_, shelf⟩ := r
  cases h
  cases hanswered with
  | ok sound grows leads check =>
    have hprogress (name : String) : shelf.inProgress.get? name = none := grows.inProgress name
    have hsome : answer.isSome = true := by
      rw [check_some hsource] at check
      generalize (Outline.ofSource (s.origin o hd).dialect source).check source _ = r at check
      cases r with
      | error e => cases check
      | ok items => exact (Except.ok.inj check).symm
    obtain ⟨target, rfl⟩ := Option.isSome_iff_exists.1 hsome
    have hid := (leads_iff hprogress).1 (leads target rfl)
    have hreached := (sound.closed hsource hid).2 other hother
    rintro ⟨some, hsome, e, he⟩
    have hcheck := sound.check_eq (fun name source hget => ⟨hsome name source hget, hprogress name⟩)
      hreached
    cases he.symm.trans hcheck

/-- A partial that is compiled now, but was not, could be compiled by itself. -/
def Settled (o : Options) (s s' : Session) : Prop :=
  ∀ m source id, s.environment.waiting.get? m = some source →
    s'.environment.compiledPartials.get? m = some id → ∃ answer, (s.resolve m o).1 = .ok answer

theorem Over.settle {hd : s.environment.partials.Distinct}
    (h : s'.Over (s.origin o hd) (s.origin o hd).Faulty) (hsettled : Settled o s s') :
    s'.Over (s.origin o hd) fun _ => False := by
  have hsound := h.sound
  refine ⟨{ hsound with made := fun m id hid hnone => ?_ }, h.waits, h.distinct, h.registered⟩
  obtain ⟨hnew, source, t, hsource, ht, hstands⟩ := hsound.made m id hid hnone
  refine ⟨hnew, source, t, hsource, ht, { hstands with links := fun other target hlink => ?_ }⟩
  have hleads := hstands.links other target hlink
  cases target with
  | compiled id => exact hleads
  | pending id =>
    rcases hleads with hid' | hid' | hfaulty
    · exact .inl hid'
    · exact .inr (.inl hid')
    · obtain ⟨answer, hanswer⟩ := hsettled m source _ hsource hid
      exact absurd hfaulty
        (not_faulty_of_resolve hd hsource hanswer ((hstands.asks other).2 ⟨_, hlink⟩))

structure Failed (name : String) (o : Options) (hd : s.environment.partials.Distinct)
    (s' : Session) : Prop where
  after : s'.Over (s.origin o hd) (s.origin o hd).Faulty
  follows : s.Follows (s.origin o hd).Faulty s'
  missing : s'.environment.compiledPartials.get? name = none
  names : ∀ m id, s'.environment.compiledPartials.get? m = some id →
    (∃ id, s.environment.compiledPartials.get? m = some id) ∨ m = name ∨ InBrackets m

theorem failed_of_resolve (hd : s.environment.partials.Distinct) {e : TemplateError}
    (h : s.resolve name o = (.error e, s')) : Failed name o hd s' := by
  have hover : s.Over (s.origin o hd) fun _ => False := over_origin s o hd
  have hanswered := resolve_answered hd o name
  have hgains := @resolve_gains (s.environment.dialect o) s.environment.waiting name (s.shelf [])
  unfold resolve at h
  generalize Stencil.resolve (s.environment.dialect o) s.environment.waiting name (s.shelf []) = r
    at h hanswered hgains
  obtain ⟨_, shelf⟩ := r
  cases h
  cases hanswered with
  | error sound grows missing check =>
    have hprogress (name : String) : shelf.inProgress.get? name = none := grows.inProgress name
    exact ⟨over_close hover sound grows hprogress (Nat.le_refl _) fun _ _ => rfl,
      follows_close hover sound grows (Nat.le_refl _) fun _ _ => rfl,
      (get?_compiled_close hover sound grows name).trans missing,
      fun m id hid => hgains ((get?_compiled_close hover sound grows m).symm.trans hid)⟩

section
variable (name) (hd : s.environment.partials.Distinct) (p : Partial) (other : String)
include hd

theorem get?_waiting_register : (s.register name p).environment.waiting.get? other =
    if name = other then p.source? else s.environment.waiting.get? other := by
  rw [Environment.get?_waiting (hd.insert name p), Environment.get?_waiting hd]
  change ((s.environment.partials.insert name p).get? other).bind _ = _
  rw [Dict.get?_insert]
  split <;> rfl

theorem get?_compiled_register : (s.register name p).environment.compiledPartials.get? other =
    if name = other then p.compiled? else s.environment.compiledPartials.get? other := by
  rw [Environment.get?_compiledPartials (hd.insert name p), Environment.get?_compiledPartials hd]
  change ((s.environment.partials.insert name p).get? other).bind _ = _
  rw [Dict.get?_insert]
  split <;> rfl

end

section
variable {hd : s.environment.partials.Distinct} (h : s'.Over (s.origin o hd) fun _ => False)
  (hmissing : s'.environment.compiledPartials.get? name = none) (p : Partial)
include h hmissing

theorem Over.get?_register {other : String} {id : TemplateId}
    (hid : s'.environment.compiledPartials.get? other = some id) :
    (s'.register name p).environment.compiledPartials.get? other = some id := by
  rw [get?_compiled_register name h.distinct, if_neg]
  · exact hid
  · rintro rfl
    cases hmissing.symm.trans hid

/-- No template is linked to a partial that is not compiled, so none is when it is registered again. -/
theorem Over.sound_register : ((s.register name p).origin o (hd.insert name p)).Sound
    (fun _ => False) ((s'.register name p).shelf []) := by
  have hcompiled := get?_compiled_register name h.distinct p
  have hcompiled' := get?_compiled_register name hd p
  have hleads (other : String) (target : Target)
      (hleads : Leads (s'.shelf []) (fun _ => False) other target) :
      Leads ((s'.register name p).shelf []) (fun _ => False) other target :=
    (leads_iff fun _ => rfl).2 (h.get?_register hmissing p ((leads_iff fun _ => rfl).1 hleads))
  refine ⟨h.sound.next, h.sound.library, fun other id hid => ?_, fun other id hid hnone => ?_,
    nofun, nofun, nofun⟩
  · change (s.register name p).environment.compiledPartials.get? other = some id at hid
    refine (hcompiled other).trans ?_
    rw [hcompiled'] at hid
    split at hid
    · next heq => rw [if_pos heq, hid]
    · next hne =>
      rw [if_neg hne]
      exact h.sound.kept other id hid
  · change (s'.register name p).environment.compiledPartials.get? other = some id at hid
    change (s.register name p).environment.compiledPartials.get? other = none at hnone
    rw [hcompiled] at hid
    rw [hcompiled'] at hnone
    by_cases heq : name = other
    · rw [if_pos heq] at hid hnone
      cases hid.symm.trans hnone
    · rw [if_neg heq] at hid hnone
      obtain ⟨hnew, source, t, hsource, ht, hstands⟩ := h.sound.made other id hid hnone
      refine ⟨hnew, source, t, ?_, ht, hstands.text, hstands.ending, hstands.distinct, hstands.asks,
        fun name target hlink => hleads name target (hstands.links name target hlink)⟩
      change (s.register name p).environment.waiting.get? other = some source
      rw [get?_waiting_register name hd, if_neg heq]
      exact hsource

theorem Over.register :
    (s'.register name p).Over ((s.register name p).origin o (hd.insert name p)) fun _ => False := by
  refine ⟨h.sound_register hmissing p, fun other _ hnone => ?_, h.distinct.insert name p,
    fun other hother => ?_⟩
  · change (s'.register name p).environment.compiledPartials.get? other = none at hnone
    change (s'.register name p).environment.waiting.get? other =
      (s.register name p).environment.waiting.get? other
    rw [get?_compiled_register name h.distinct] at hnone
    rw [get?_waiting_register name h.distinct, get?_waiting_register name hd]
    by_cases heq : name = other
    · rw [if_pos heq, if_pos heq]
    · rw [if_neg heq] at hnone
      rw [if_neg heq, if_neg heq]
      exact h.waits other rfl hnone
  · change ∃ q, (s'.environment.partials.insert name p).get? other = some q
    rw [Dict.get?_insert]
    by_cases heq : name = other
    · exact ⟨p, if_pos heq⟩
    · rw [if_neg heq]
      refine h.registered other ?_
      change (((s.register name p).environment.compiledPartials.get? other).isSome ||
        ((s.register name p).environment.waiting.get? other).isSome) = true at hother
      rw [get?_compiled_register name hd, get?_waiting_register name hd, if_neg heq, if_neg heq]
        at hother
      exact hother

end

theorem Failed.twin {hd : s.environment.partials.Distinct} (h : Failed name o hd s')
    (hsettled : Settled o s s') : Twin s o hd s' :=
  ⟨h.after.settle hsettled, h.follows.environment, h.follows.elsewhere⟩

theorem Twin.register {hd : s.environment.partials.Distinct} (h : Twin s o hd s')
    (hmissing : s'.environment.compiledPartials.get? name = none) (p : Partial) :
    Twin (s.register name p) o (hd.insert name p) (s'.register name p) := by
  refine ⟨h.after.register hmissing p, ?_, h.elsewhere⟩
  exact congrArg (fun e : Environment =>
    { e with partials := (s'.register name p).environment.partials }) h.environment

theorem Twin.agree {hd : s.environment.partials.Distinct} (h : Twin s o hd s') (hs : s.Numbered)
    (ho : o.overlay = false) (source : String) : Agree o source s s' := by
  intro σ host depth cached context data state
  have htwin : Twin s { o with data } hd s' := ⟨h.after, h.environment, h.elsewhere⟩
  exact htwin.outcome_eq hs ho host depth cached source context state

theorem Numbered.register (hs : s.Numbered) (name : String) {p : Partial}
    (hp : ∀ id, p = .compiled id → id < s.library.next) : (s.register name p).Numbered :=
  ⟨hs.library, hs.environment.insert name hp, hs.elsewhere⟩

/-- If every partial that was compiled on the way is settled, then no source whatever shows it. -/
theorem untraced_of_settled (hs : s.Numbered) (ho : o.overlay = false) {e : TemplateError}
    (h : s.resolve name o = (.error e, s')) (hsettled : Settled o s s') (source : String) :
    Untraced name o source s s' := by
  have hfailed := failed_of_resolve hs.environment.partials h
  have htwin := hfailed.twin hsettled
  refine ⟨htwin.agree hs ho source, fun p hp => ?_⟩
  exact (htwin.register hfailed.missing p).agree (hs.register name hp) ho source

/-- The inclusion of a partial that is compiled now, and does not compile by itself, shows it. -/
theorem resolve_ok_of_agree {m : String} (hm : InBrackets m) (ho : o.overlay = false)
    (henvironment : s'.environment = { s.environment with partials := s'.environment.partials })
    {id : TemplateId} (hid : s'.environment.compiledPartials.get? m = some id)
    (h : Agree o (String.ofList (including m)) s s') : ∃ answer, (s.resolve m o).1 = .ok answer := by
  let d := s.environment.dialect o
  obtain ⟨left, houtline⟩ := ofSource_including d hm
  have hd : s'.environment.dialect o = d := by
    rw [henvironment]
    rfl
  generalize hr : Stencil.resolve d s.environment.waiting m (s.shelf []) = r
  have hanswer : (s.resolve m o).1 = r.1 := congrArg Prod.fst hr
  obtain ⟨answer, shelf⟩ := r
  cases answer with
  | ok answer => exact ⟨answer, hanswer⟩
  | error e =>
    have herror : Stencil.compile (s.environment.dialect o) s.environment.waiting
        (String.ofList (including m)) (s.shelf []) = (.error e, shelf) := by
      unfold Stencil.compile
      rw [houtline]
      exact Outline.link_error hr
    have hcompile : Stencil.compile (s'.environment.dialect o) s'.environment.waiting
        (String.ofList (including m)) (s'.shelf []) =
          (.ok ⟨String.ofList (including m), [inclusion m], ⟨[(m, .compiled id)]⟩⟩, s'.shelf []) := by
      unfold Stencil.compile
      rw [hd, houtline]
      exact Outline.link_some (resolve_compiled rfl hid)
    have hagree := h Unit (fun _ _ => .done .null) 0 false .null o.data ()
    unfold outcome at hagree
    rw [if_neg Bool.false_ne_true] at hagree
    have hfailed := compileUncached_error ho herror
    have hdone := compileUncached_ok ho hcompile
    rw [hfailed, hdone] at hagree
    cases hagree

/-- If a partial fails to compile, then what comes of including any partial is as if it had not been
tried exactly when every partial that was compiled on the way could be compiled by itself. -/
theorem untraced_iff_settled (hs : s.Numbered) (ho : o.overlay = false) {e : TemplateError}
    (h : s.resolve name o = (.error e, s')) :
    (∀ m, InBrackets m → Untraced name o (String.ofList (including m)) s s') ↔ Settled o s s' := by
  constructor
  · intro huntraced m source id hsource hid
    have hfailed := failed_of_resolve hs.environment.partials h
    have hnew : s.environment.compiledPartials.get? m = none :=
      (s.origin o hs.environment.partials).apart m source hsource
    have hm : InBrackets m := by
      rcases hfailed.names m id hid with ⟨id', hid'⟩ | rfl | hm
      · cases hnew.symm.trans hid'
      · cases hfailed.missing.symm.trans hid
      · exact hm
    exact resolve_ok_of_agree hm ho hfailed.follows.environment hid (huntraced m hm).now
  · exact fun hsettled m _ => untraced_of_settled hs ho h hsettled _

theorem ofSource_including_twice (d : Dialect) {first second : String} (h : InBrackets first)
    (h' : InBrackets second) : ∃ left left' rest,
      Outline.ofSource d (String.ofList (including first ++ including second)) =
        .asking first left (.asking second left' rest) := by
  have hnone : IsPlain [] := nofun
  obtain ⟨left, mark, hread⟩ := read_including d h {} hnone 0 (including second)
  obtain ⟨left', mark', hread'⟩ :=
    read_including d h' ((({} : Draft).pushText []).push (inclusion first)) hnone mark []
  rw [List.nil_append] at hread
  rw [List.nil_append, List.append_nil] at hread'
  rw [hread'] at hread
  have houtline : Outline.ofSource d (String.ofList (including first ++ including second)) =
      Outline.read d {} false 0 (including first ++ including second) := by
    unfold Outline.ofSource
    rw [String.toList_ofList]
  exact ⟨left, left', _, houtline.trans hread⟩

/-- Of two partials that include each other the first includes a third that is missing. The second
is left compiled by the failure, though it does not compile by itself. -/
theorem traced_of_missing :
    let a := String.ofList (including "b" ++ including "c")
    let b := String.ofList (including "a")
    let s : Session := { environment := { partials := ⟨[("a", .source a), ("b", .source b)]⟩ } }
    ∃ e s', s.resolve "a" {} = (.error e, s') ∧
      ¬ ∀ m, InBrackets m → Untraced "a" {} (String.ofList (including m)) s s' := by
  intro a b s
  have hs : s.Numbered := by
    refine ⟨nofun, ⟨?_, ?_, nofun⟩, nofun⟩
    · change ["a", "b"].Nodup
      decide
    · intro id hid
      change Partial.compiled id ∈ [.source a, .source b] at hid
      simp at hid
  let d := s.environment.dialect {}
  let waiting := s.environment.waiting
  have hnames : InBrackets "a" ∧ InBrackets "b" ∧ InBrackets "c" :=
    ⟨⟨by decide, by decide⟩, ⟨by decide, by decide⟩, by decide, by decide⟩
  obtain ⟨left, left', rest, ha⟩ := ofSource_including_twice d hnames.2.1 hnames.2.2
  obtain ⟨leftb, hb⟩ := ofSource_including d hnames.1
  let e := Failure.error a ⟨left', .missingPartial "c"⟩
  let t : Template := ⟨b, [inclusion "a"], ⟨[("a", .pending 0)]⟩⟩
  let inFirst := (s.shelf []).start "a"
  let inSecond := (s.shelf []).start "b"
  let done := (inFirst.start "b").stop "b" 1 (.ok t)
  have hwaiting : waiting.get? "a" = some a ∧ (waiting.erase "a").get? "b" = some b := ⟨rfl, rfl⟩
  have hwaiting' : waiting.get? "b" = some b ∧ (waiting.erase "b").get? "a" = some a := ⟨rfl, rfl⟩
  have hlink : (Outline.ofSource d b).link b (Stencil.resolve d ((waiting.erase "a").erase "b"))
      ⟨[]⟩ (inFirst.start "b") = (.ok t, inFirst.start "b") := by
    rw [hb]
    exact Outline.link_some (resolve_pending rfl)
  have hsecond := resolve_waiting rfl rfl hwaiting.2 hlink
  have houter : (Outline.ofSource d a).link a (Stencil.resolve d (waiting.erase "a")) ⟨[]⟩ inFirst =
      (.error e, done) := by
    rw [ha, Outline.link_some hsecond]
    exact Outline.link_missing (resolve_unknown rfl rfl rfl)
  have hfirst := resolve_waiting rfl rfl hwaiting.1 houter
  have hresolve : s.resolve "a" {} = (.error e, s.close (done.stop "a" 0 (.error e))
      (done.stop "a" 0 (.error e)).library) := by
    unfold resolve
    rw [hfirst]
    rfl
  have hlink' : (Outline.ofSource d a).link a (Stencil.resolve d ((waiting.erase "b").erase "a"))
      ⟨[]⟩ (inSecond.start "a") = (.error e, inSecond.start "a") := by
    rw [ha, Outline.link_some (resolve_pending rfl)]
    exact Outline.link_missing (resolve_unknown rfl rfl rfl)
  have hfirst' := resolve_waiting rfl rfl hwaiting'.2 hlink'
  have houter' : ((Outline.ofSource d b).link b (Stencil.resolve d (waiting.erase "b")) ⟨[]⟩
      inSecond).1 = .error e := by
    rw [hb, Outline.link_error hfirst']
  have herror : (s.resolve "b" {}).1 = .error e :=
    congrArg Prod.fst (resolve_waiting rfl rfl hwaiting'.1 (Prod.ext houter' rfl))
  refine ⟨e, _, hresolve, fun huntraced => ?_⟩
  have hsettled := (untraced_iff_settled hs rfl hresolve).1 huntraced
  obtain ⟨answer, hanswer⟩ := hsettled "b" b 1 rfl rfl
  cases hanswer.symm.trans herror

end Session
end Stencil
