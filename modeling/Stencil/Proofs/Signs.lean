import Stencil.Proofs.Abreast

set_option autoImplicit false

/-!
# Signs in expressions

A reference that is not read has passed an `@`. That is the one thing that an alternative passes that is
not taken, and it is known where it happens: in front of another operand, and where arguments end.
-/
namespace Stencil

namespace TokenKind

def refers : TokenKind → Bool
  | .ident | .thisWord | .dot => true
  | _ => false

def yields : TokenKind → Bool
  | .const | .trueWord | .falseWord | .leftParen => true
  | _ => false

theorem isCloser_of_yields {kind : TokenKind} (h : kind.yields = true) : kind.isCloser = false := by
  cases kind <;> first | rfl | cases h

end TokenKind

theorem Token.yields_of_value? {t : Token} {v : Value} (h : t.value? = some v) :
    t.kind.yields = true := by
  obtain ⟨kind, text⟩ := t
  cases kind <;> first | rfl | cases h

theorem Token.yields_eq_false {t : Token} (h : t.value? = none) (hparen : t.kind ≠ .leftParen) :
    t.kind.yields = false := by
  obtain ⟨kind, text⟩ := t
  cases kind with
  | const => exact absurd rfl (Cursor.kind_of_value?_eq_none h)
  | trueWord | falseWord => cases h
  | leftParen => exact absurd rfl hparen
  | _ => rfl

/-- The last token is an `@`, or white space behind one. The last token comes first. -/
inductive Pending : List Token → Prop
  | atSign {t : Token} {before : List Token} (ht : t.kind = .atSign) : Pending (t :: before)
  | space {s t : Token} {before : List Token} (hs : s.kind = .space) (ht : t.kind = .atSign) :
    Pending (s :: t :: before)

/-- The tokens that may stand behind others, the last one of which comes first. Behind an `@` that is
a reference, another operand in its place, or the end of a call of which the `@` is an argument. -/
inductive MayFollow : List Token → TokenKind → Prop
  | free {trail : List Token} {kind : TokenKind} (h : ¬ Pending trail) : MayFollow trail kind
  | reference {t : Token} {before : List Token} {kind : TokenKind} (ht : t.kind = .atSign)
    (h : kind.refers = true) : MayFollow (t :: before) kind
  | operand {t b : Token} {before : List Token} {kind : TokenKind} (ht : t.kind = .atSign)
    (hb : b.kind = .space ∨ b.kind = .equals) (h : kind.yields = true) :
    MayFollow (t :: b :: before) kind
  | ended {t s : Token} {before : List Token} {kind : TokenKind} (ht : t.kind = .atSign)
    (hs : s.kind = .space) (h : kind = .rightParen ∨ kind = .space) : MayFollow (t :: s :: before) kind

inductive Signed : List Token → Prop
  | nil : Signed []
  | cons {t : Token} {trail : List Token} (h : Signed trail) (hmay : MayFollow trail t.kind) :
    Signed (t :: trail)

structure Clear (trail : List Token) : Prop where
  signed : Signed trail
  free : ¬ Pending trail

structure Ready (trail : List Token) : Prop where
  signed : Signed trail
  may : ∀ kind : TokenKind, kind.refers = true → MayFollow trail kind

/-- A call may be over: no `@` is pending, but for one as an argument. -/
inductive Ended : List Token → Prop
  | clear {trail : List Token} (h : Clear trail) : Ended trail
  | atSign {t s : Token} {before : List Token} (h : Clear (s :: before)) (hs : s.kind = .space)
    (ht : t.kind = .atSign) : Ended (t :: s :: before)

section
variable {t : Token} {trail : List Token}

theorem not_pending_cons (h : ¬ Pending trail) (ht : t.kind ≠ .atSign) : ¬ Pending (t :: trail) := by
  intro hpending
  cases hpending with
  | atSign hat => exact ht hat
  | space _ hat => exact h (.atSign hat)

theorem not_pending_of_kind (ht : t.kind ≠ .atSign) (hspace : t.kind ≠ .space) :
    ¬ Pending (t :: trail) := by
  intro hpending
  cases hpending with
  | atSign hat => exact ht hat
  | space hs _ => exact hspace hs

theorem Clear.nil : Clear [] := ⟨.nil, nofun⟩

theorem Clear.cons (h : Clear trail) (ht : t.kind ≠ .atSign) : Clear (t :: trail) :=
  ⟨.cons h.signed (.free h.free), not_pending_cons h.free ht⟩

theorem Clear.ready (h : Clear trail) : Ready trail := ⟨h.signed, fun _ _ => .free h.free⟩

theorem Clear.atSign (h : Clear trail) (ht : t.kind = .atSign) : Ready (t :: trail) :=
  ⟨.cons h.signed (.free h.free), fun _ => .reference ht⟩

theorem Ready.cons (h : Ready trail) (ht : t.kind.refers = true) : Clear (t :: trail) := by
  have hne {kind : TokenKind} (hkind : kind.refers = false) : t.kind ≠ kind := by
    rintro rfl
    cases ht.symm.trans hkind
  exact ⟨.cons h.signed (h.may _ ht), not_pending_of_kind (hne rfl) (hne rfl)⟩

theorem Ended.rightParen (h : Ended trail) (ht : t.kind = .rightParen) : Clear (t :: trail) := by
  cases h with
  | clear h => exact h.cons (by rw [ht]; decide)
  | atSign h hs hat =>
    exact ⟨.cons (.cons h.signed (.free h.free)) (.ended hat hs (.inl ht)),
      not_pending_of_kind (by rw [ht]; decide) (by rw [ht]; decide)⟩

theorem Ended.signed (h : Ended trail) : Signed trail := by
  cases h with
  | clear h => exact h.signed
  | atSign h hs hat => exact .cons h.signed (.free h.free)

theorem Ended.space (h : Ended trail) (ht : t.kind = .space) : Signed (t :: trail) := by
  cases h with
  | clear h => exact .cons h.signed (.free h.free)
  | atSign h hs hat => exact .cons (.cons h.signed (.free h.free)) (.ended hat hs (.inr ht))

theorem Signed.mayFollow {us : List Token} (h : Signed (us ++ t :: trail)) :
    MayFollow trail t.kind := by
  induction us with
  | nil =>
    cases h with
    | cons _ hmay => exact hmay
  | cons u us ih =>
    cases h with
    | cons h _ => exact ih h

end

/-- What stands directly in front of an `@` and behind it: a reference behind it, or another operand
where one may be, or the end of a call of which it is an argument. -/
inductive Answered (before behind : List Token) : Prop
  | reference (h : ∃ t ∈ behind.head?, t.kind.refers = true)
  | operand (hbefore : ∃ t ∈ before.getLast?, t.kind = .space ∨ t.kind = .equals)
    (h : ∃ t ∈ behind.head?, t.kind.yields = true)
  | ended (hbefore : ∃ t ∈ before.getLast?, t.kind = .space)
    (h : (∀ t ∈ behind, t.kind = .space) ∨ ∃ t ∈ behind.head?, t.kind = .rightParen)

theorem getLast?_of_reverse {before us : List Token} {b : Token} (h : before.reverse = b :: us) :
    b ∈ before.getLast? := by
  rw [← List.head?_reverse, h]
  rfl

inductive ReadOut : List Token → Prop
  | ended {trail : List Token} (h : Ended trail) : ReadOut trail
  | space {s : Token} {trail : List Token} (hs : s.kind = .space) (h : Ended trail) : ReadOut (s :: trail)

theorem ReadOut.signed {trail : List Token} (h : ReadOut trail) : Signed trail := by
  cases h with
  | ended h => exact h.signed
  | space hs h => exact h.space hs

theorem ReadOut.answered {ts before behind : List Token} {t : Token} (h : ReadOut ts.reverse)
    (hts : ts = before ++ t :: behind) (ht : t.kind = .atSign) : Answered before behind := by
  have hsigned := h.signed
  subst hts
  simp only [List.reverse_append, List.reverse_cons, List.append_assoc, List.singleton_append] at h hsigned
  cases behind with
  | nil =>
    simp only [List.reverse_nil, List.nil_append] at h
    generalize htrail : t :: before.reverse = trail at h
    cases h with
    | space hs _ =>
      obtain ⟨rfl, -⟩ := List.cons.inj htrail
      cases hs.symm.trans ht
    | ended h =>
      cases h with
      | clear h =>
        subst htrail
        exact absurd (.atSign ht) h.free
      | atSign _ hs _ =>
        obtain ⟨rfl, hbefore⟩ := List.cons.inj htrail
        exact .ended ⟨_, getLast?_of_reverse hbefore, hs⟩ (.inl (List.forall_mem_nil _))
  | cons b behind =>
    simp only [List.reverse_cons, List.append_assoc, List.singleton_append] at hsigned
    have hmay := hsigned.mayFollow
    generalize htrail : t :: before.reverse = trail at hmay
    generalize hkind : b.kind = kind at hmay
    cases hmay with
    | free h =>
      subst htrail
      exact absurd (.atSign ht) h
    | reference _ h => exact .reference ⟨b, rfl, hkind ▸ h⟩
    | operand _ hb h =>
      obtain ⟨-, hbefore⟩ := List.cons.inj htrail
      exact .operand ⟨_, getLast?_of_reverse hbefore, hb⟩ ⟨b, rfl, hkind ▸ h⟩
    | ended _ hs h =>
      obtain ⟨-, hbefore⟩ := List.cons.inj htrail
      refine .ended ⟨_, getLast?_of_reverse hbefore, hs⟩ ?_
      rcases h with rfl | rfl
      · exact .inr ⟨b, rfl, hkind⟩
      · refine .inl ?_
        cases behind with
        | nil => exact List.forall_mem_singleton.2 hkind
        | cons u behind =>
          simp only [List.reverse_cons, List.append_assoc, List.singleton_append] at hsigned
          have hmay := hsigned.mayFollow
          generalize htrail' : b :: t :: before.reverse = trail' at hmay
          cases hmay with
          | free h =>
            subst htrail'
            exact absurd (.space hkind ht) h
          | reference hat _ | operand hat _ _ | ended hat _ _ =>
            obtain ⟨rfl, -⟩ := List.cons.inj htrail'
            cases hkind.symm.trans hat

namespace Cursor

/-- Behind `trail`, a computation that ends well has passed tokens, none of which begins a closer, and
something is known of its result, of all the tokens and of where it ends. -/
def Runs {o : Cursor} {α : Type} (trail : List Token) (c : Cursor)
    (post : α → List Token → Cursor → Prop) (x : Except Failure (o.Ahead α)) : Prop :=
  ∀ a, x = .ok a → ∃ ts, c.Passes ts a.cursor ∧ post a.result (ts.reverse ++ trail) a.cursor

namespace Runs
variable {α β : Type} {o p c : Cursor} {trail : List Token} {kind : TokenKind}
  {post : α → List Token → Cursor → Prop} {after : β → List Token → Cursor → Prop}

theorem error {f : Failure} : Runs (o := o) trail c post (.error f) := by
  intro a ha
  cases ha

theorem done {r : α} (h : post r trail c) {hc : c.rest.length ≤ o.rest.length} :
    Runs trail c post (.ok (⟨r, c, hc⟩ : o.Ahead α)) := by
  intro a ha
  cases ha
  exact ⟨[], .here c, h⟩

theorem of_passes {ts : List Token} {e : Cursor} {x : Except Failure (o.Ahead α)}
    (h : Runs (ts.reverse ++ trail) e post x) (hpasses : c.Passes ts e) : Runs trail c post x := by
  intro a ha
  obtain ⟨us, hmore, hpost⟩ := h a ha
  refine ⟨ts ++ us, hpasses.trans hmore, ?_⟩
  rw [List.reverse_append, List.append_assoc]
  exact hpost

theorem bind {x : Except Failure (o.Ahead α)} (h : Runs trail c post x)
    {f : o.Ahead α → Except Failure (p.Ahead β)}
    (hf : ∀ a us, x = .ok a → post a.result us a.cursor → Runs us a.cursor after (f a)) :
    Runs trail c after (x >>= f) := by
  cases hx : x with
  | error e => exact error
  | ok a =>
    obtain ⟨ts, hpasses, hpost⟩ := h a hx
    exact (hf a _ hx hpost).of_passes hpasses

theorem map {x : Except Failure (o.Ahead α)} {f : α → β} (h : Runs trail c post x)
    (hf : ∀ r us e, post r us e → after (f r) us e) : Runs trail c after (Ahead.map f <$> x) := by
  rw [map_eq_pure_bind]
  exact h.bind fun a us _ hpost => done (hf _ _ _ hpost)

theorem check_bind {ε : Type} (call : Call ε) (dialect : Dialect) (e : Cursor)
    {f : Unit → Except Failure (o.Ahead α)} (h : Runs trail c post (f ())) :
    Runs trail c post (call.check dialect e >>= f) := by
  unfold Call.check
  split
  · exact h
  · split
    · exact error
    · exact h

theorem next_bind (hclose : c.token.kind.isCloser = false)
    {f : c.Past → Except Failure (p.Ahead β)}
    (hf : ∀ n : c.Past, Runs (c.token :: trail) n.1 after (f n)) :
    Runs trail c after (c.next >>= f) := by
  cases hnext : c.next with
  | error e => exact error
  | ok n => exact (hf n).of_passes (.single hclose (at_of_start hnext))

theorem eat_bind (hclose : kind.isCloser = false)
    {f : Option c.Past → Except Failure (p.Ahead β)}
    (hnone : c.token.kind ≠ kind → Runs trail c after (f none))
    (hsome : ∀ n : c.Past, c.token.kind = kind → Runs (c.token :: trail) n.1 after (f (some n))) :
    Runs trail c after (c.eat kind >>= f) := by
  by_cases hkind : c.token.kind = kind
  · have heat : c.eat kind = some <$> c.next := if_pos hkind
    rw [heat, map_eq_pure_bind, bind_assoc]
    exact next_bind (hkind ▸ hclose) fun n => hsome n hkind
  · rw [eat_eq_none hkind]
    exact hnone hkind

theorem expect_bind (hclose : kind.isCloser = false) {f : c.Past → Except Failure (p.Ahead β)}
    (hf : ∀ n : c.Past, c.token.kind = kind → Runs (c.token :: trail) n.1 after (f n)) :
    Runs trail c after (c.expect kind >>= f) := by
  unfold expect
  rw [bind_assoc]
  exact eat_bind hclose (fun _ => error) hf

theorem skip {post : Bool → List Token → Cursor → Prop} (hclose : kind.isCloser = false)
    (hstay : c.token.kind ≠ kind → post false trail c)
    (hpast : ∀ n : Cursor, c.token.kind = kind → post true (c.token :: trail) n) :
    Runs trail c post (c.skip kind) := by
  unfold Cursor.skip
  exact eat_bind hclose (fun hkind => done (hstay hkind)) fun n hkind => done (hpast n.1 hkind)

end Runs

def Tries {α : Type} (Z : List Token → Cursor → Prop) (r : Option α) (us : List Token) (e : Cursor) :
    Prop :=
  (r = none → Z us e) ∧ (r.isSome = true → Clear us)

theorem Tries.some {α : Type} {Z : List Token → Cursor → Prop} {r : α} {us : List Token} {e : Cursor}
    (h : Clear us) : Tries Z (some r) us e := ⟨nofun, fun _ => h⟩

theorem Tries.none {α : Type} {Z : List Token → Cursor → Prop} {us : List Token} {e : Cursor}
    (h : Z us e) : Tries Z (none : Option α) us e := ⟨fun _ => h, nofun⟩

variable {d : Dialect} {trail : List Token} {c : Cursor} {Z : List Token → Cursor → Prop}

theorem skip_runs {kind : TokenKind} (h : Clear trail) (hclose : kind.isCloser = false)
    (hat : kind ≠ .atSign) : Runs trail c (fun _ us _ => Clear us) (c.skip kind) :=
  Runs.skip hclose (fun _ => h) fun _ hkind => h.cons (hkind ▸ hat)

theorem steps_runs (h : Ready trail) (separator : String) :
    Runs trail c (fun _ us _ => Clear us) (c.steps separator) := by
  induction hn : c.rest.length using Nat.strongRecOn generalizing trail c separator with
  | ind n ih =>
    subst hn
    rw [steps]
    by_cases hident : c.token.kind = .ident
    · rw [if_pos hident]
      refine Runs.next_bind (by rw [hident]; rfl) ?_
      rintro ⟨n, hlt⟩
      have hclear : Clear (c.token :: trail) := h.cons (by rw [hident]; rfl)
      dsimp only
      by_cases hkind : n.token.kind = .dot ∨ n.token.kind = .slash
      · rw [if_pos hkind]
        have hkind' : n.token.kind.isCloser = false ∧ n.token.kind ≠ .atSign := by
          rcases hkind with hkind | hkind <;> rw [hkind] <;> exact ⟨rfl, by decide⟩
        refine Runs.next_bind hkind'.1 ?_
        rintro ⟨e, hlt'⟩
        refine (ih _ (Nat.lt_trans hlt' hlt) (hclear.cons hkind'.2).ready _ rfl).bind ?_
        exact fun a us _ hclear => .done hclear
      · rw [if_neg hkind]
        exact .done hclear
    · rw [if_neg hident]
      exact .error

theorem names?_runs (h : Ready trail) (hZ : c.token.kind ≠ .ident → Z trail c) :
    Runs trail c (Tries Z) c.names? := by
  unfold names?
  split
  · exact (steps_runs h "").bind fun a us _ hclear => .done (.some hclear)
  · next hident => exact .done (.none (hZ hident))

theorem names_runs (h : Ready trail) : Runs trail c (fun _ us _ => Clear us) c.names := by
  unfold names
  refine (names?_runs (Z := fun _ _ => True) h fun _ => trivial).bind ?_
  rintro ⟨path, e, he⟩ us - hpost
  cases path with
  | some path => exact .done (hpost.2 rfl)
  | none => exact .error

theorem climb_runs (h : Ready trail) (up : Nat) (here : Bool)
    (hZ : up = 0 → here = false → c.token.kind ≠ .dot → Z trail c) :
    Runs trail c (fun r us e => Ready us ∧ (r.2 = none → Clear us) ∧ (r.2 = some false → Z us e))
      (c.climb up here) := by
  induction hn : c.rest.length using Nat.strongRecOn generalizing trail c up here with
  | ind n ih =>
    subst hn
    rw [climb]
    refine Runs.eat_bind rfl (fun hdot => ?_) ?_
    · refine .done ⟨h, fun hnone => (by cases hnone), fun hrequired => ?_⟩
      obtain ⟨hhere, hup⟩ := Bool.or_eq_false_iff.1 (Option.some.inj hrequired)
      exact hZ (Nat.eq_zero_of_not_pos (of_decide_eq_false hup)) hhere hdot
    · rintro ⟨n, hlt⟩ hdot
      have hclear : Clear (c.token :: trail) := h.cons (by rw [hdot]; rfl)
      refine Runs.eat_bind rfl (fun _ => ?_) ?_
      · refine Runs.eat_bind rfl (fun _ => ?_) ?_
        · exact .done ⟨hclear.ready, fun _ => hclear, fun hrequired => by cases hrequired⟩
        · rintro ⟨e, hlt'⟩ hslash
          have hclear' := hclear.cons (t := n.token) (by rw [hslash]; decide)
          have hfree : up = 0 → true = false → e.token.kind ≠ .dot → Z (n.token :: c.token :: trail) e :=
            fun _ h => absurd h (by decide)
          refine (ih _ (Nat.lt_trans hlt' hlt) hclear'.ready up true hfree rfl).bind ?_
          exact fun a us _ hpost => .done hpost
      · rintro ⟨e, hlt'⟩ hdot'
        have hclear' := hclear.cons (t := n.token) (by rw [hdot']; decide)
        refine Runs.eat_bind rfl (fun _ => ?_) ?_
        · exact .done ⟨hclear'.ready, fun _ => hclear', fun hrequired => by cases hrequired⟩
        · rintro ⟨f, hlt''⟩ hslash
          have hclear'' := hclear'.cons (t := e.token) (by rw [hslash]; decide)
          have hfree : up + 1 = 0 → here = false → f.token.kind ≠ .dot →
              Z (e.token :: n.token :: c.token :: trail) f :=
            fun h => absurd h (Nat.succ_ne_zero up)
          have hlt₃ := Nat.lt_trans hlt'' (Nat.lt_trans hlt' hlt)
          refine (ih _ hlt₃ hclear''.ready (up + 1) here hfree rfl).bind ?_
          exact fun a us _ hpost => .done hpost

theorem referenceNames_runs (h : Ready trail) (data : Bool) (up : Nat) (required : Bool)
    (hZ : required = false → c.token.kind ≠ .ident → Z trail c) :
    Runs trail c (Tries Z) (c.referenceNames data up required) := by
  unfold referenceNames
  refine (names?_runs (Z := fun us e => required = false → Z us e) h fun hident hrequired =>
    hZ hrequired hident).bind ?_
  rintro ⟨path, e, he⟩ us - hpost
  cases path with
  | some path => exact .done (.some (hpost.2 rfl))
  | none =>
    cases required with
    | true => exact .error
    | false => exact .done (.none (hpost.1 rfl rfl))

/-- A reference that is not read has passed an `@` if one is next, and no more. -/
structure PassedSign (trail : List Token) (c : Cursor) (us : List Token) (e : Cursor) : Prop where
  refers : e.token.kind.refers = false
  passed : us = if c.token.kind = .atSign then c.token :: trail else trail

theorem refers_eq_false {kind : TokenKind} (hident : kind ≠ .ident) (hthis : kind ≠ .thisWord)
    (hdot : kind ≠ .dot) : kind.refers = false := by
  cases kind <;> first | rfl | contradiction

theorem reference?_runs (h : Clear trail) :
    Runs trail c (Tries (PassedSign trail c)) c.reference? := by
  unfold reference?
  have hsign : Runs trail c (fun _ us _ => Ready us ∧
      us = if c.token.kind = .atSign then c.token :: trail else trail) (c.skip .atSign) :=
    Runs.skip rfl (fun hat => ⟨h.ready, (if_neg hat).symm⟩)
      fun n hat => ⟨h.atSign hat, (if_pos hat).symm⟩
  refine hsign.bind ?_
  rintro ⟨data, e, he⟩ us - ⟨hready, hus⟩
  refine Runs.eat_bind rfl (fun hthis => ?_) ?_
  · refine (climb_runs (Z := fun us' e' => us' = us ∧ e' = e ∧ e.token.kind ≠ .dot) hready 0 false
      fun _ _ hdot => ⟨rfl, rfl, hdot⟩).bind ?_
    rintro ⟨⟨up, required⟩, f, hf⟩ us' - hpost
    obtain ⟨hready', hclear, hfalse⟩ := hpost
    cases required with
    | none => exact .done (.some (hclear rfl))
    | some required =>
      refine (referenceNames_runs hready' data up required fun hrequired hident => ?_).bind
        fun a us _ hpost => .done hpost
      subst hrequired
      obtain ⟨rfl, hfe, hdot⟩ := hfalse rfl
      dsimp only at hfe hident ⊢
      subst hfe
      exact ⟨refers_eq_false hident hthis hdot, hus⟩
  · rintro ⟨f, hf⟩ hthis
    have hclear : Clear (e.token :: us) := hready.cons (by rw [hthis]; rfl)
    refine (skip_runs hclear rfl (by decide)).bind ?_
    rintro ⟨dotted, g, hg⟩ us' - hclear'
    cases dotted with
    | true =>
      exact (referenceNames_runs hclear'.ready data 0 true nofun).bind fun a us _ hpost => .done hpost
    | false => exact .done (.some hclear')

theorem head_runs (h : Clear trail) (fallback : Option Helper) :
    Runs trail c (fun _ us _ => Clear us) (c.head d fallback) := by
  unfold head
  refine (names?_runs (Z := fun us e => us = trail) h.ready fun _ => rfl).bind ?_
  rintro ⟨path, e, he⟩ us - hpost
  cases path with
  | some path =>
    dsimp only
    split
    · exact .done (hpost.2 rfl)
    · exact .done (hpost.2 rfl)
  | none =>
    obtain rfl : us = trail := hpost.1 rfl
    refine (reference?_runs h).bind ?_
    rintro ⟨r, f, hf⟩ us - hpost
    cases r with
    | some r => exact .done (hpost.2 rfl)
    | none => exact .error

theorem PassedSign.yields_cons {b t : Token} {before us : List Token} {e : Cursor}
    (hus : PassedSign (b :: before) c us e) (h : Clear (b :: before))
    (hb : b.kind = .space ∨ b.kind = .equals) (ht : t.kind.yields = true) : Clear (t :: us) := by
  have hne {kind : TokenKind} (hkind : kind.yields = false) : t.kind ≠ kind := by
    rintro rfl
    cases ht.symm.trans hkind
  obtain ⟨-, rfl⟩ := hus
  split
  · next hat =>
    exact ⟨.cons (.cons h.signed (.free h.free)) (.operand hat hb ht),
      not_pending_of_kind (hne rfl) (hne rfl)⟩
  · exact h.cons (hne rfl)

structure SignedBelow (d : Dialect) (n : Nat) : Prop where
  call : ∀ {trail : List Token} {c : Cursor} (fallback : Option Helper), Clear trail →
    3 * c.rest.length + 1 < n → Runs trail c (fun _ us _ => Ended us) (c.call d fallback)
  expression : ∀ {trail : List Token} {c : Cursor}, Clear trail → 3 * c.rest.length + 2 < n →
    Runs trail c (fun _ us _ => Ended us) (c.expression d)
  operand : ∀ {b : Token} {before : List Token} {c : Cursor}, Clear (b :: before) →
    b.kind = .space ∨ b.kind = .equals → 3 * c.rest.length < n →
      Runs (b :: before) c (Tries fun us e => PassedSign (b :: before) c us e ∧
        e.token.kind.yields = false) (c.operand? d)
  argument : ∀ {b : Token} {before : List Token} {c : Cursor}, Clear (b :: before) →
    b.kind = .space → 3 * c.rest.length + 1 < n →
      Runs (b :: before) c (Tries (PassedSign (b :: before) c)) (c.argument? d)
  arguments : ∀ {trail : List Token} {c : Cursor}, Clear trail → 3 * c.rest.length < n →
    Runs trail c (fun _ us _ => Ended us) (c.arguments d)

section
variable {n : Nat} (ih : SignedBelow d n)
include ih

theorem call_runs (h : Clear trail) (hn : 3 * c.rest.length + 1 < n + 1)
    (fallback : Option Helper) : Runs trail c (fun _ us _ => Ended us) (c.call d fallback) := by
  rw [call]
  refine (head_runs h fallback).bind ?_
  rintro ⟨head, e, he⟩ us - hclear
  dsimp only at hclear ⊢
  refine (ih.arguments hclear (by omega)).bind ?_
  rintro ⟨args, f, hf⟩ us' - hended
  exact .done hended

theorem expression_runs (h : Clear trail) (hn : 3 * c.rest.length + 2 < n + 1) :
    Runs trail c (fun _ us _ => Ended us) (c.expression d) := by
  rw [expression]
  intro a ha
  obtain ⟨⟨call, e, he⟩, hcall, ha⟩ := bind_eq_ok.1 ha
  dsimp only at ha
  split at ha
  · obtain ⟨⟨r, f, hf⟩, hreference, ha⟩ := bind_eq_ok.1 ha
    obtain ⟨ts, hpasses, hpost⟩ := reference?_runs h _ hreference
    cases r with
    | none => cases ha
    | some r =>
      cases ha
      exact ⟨ts, hpasses, .clear (hpost.2 rfl)⟩
  · obtain ⟨ts, hpasses, hended⟩ := ih.call d.callFallback h (by omega) _ hcall
    obtain ⟨_, -, ha⟩ := bind_eq_ok.1 ha
    cases ha
    exact ⟨ts, hpasses, hended⟩

theorem operand?_runs {b : Token} {before : List Token} (h : Clear (b :: before))
    (hb : b.kind = .space ∨ b.kind = .equals) (hn : 3 * c.rest.length < n + 1) :
    Runs (b :: before) c (Tries fun us e => PassedSign (b :: before) c us e ∧
      e.token.kind.yields = false) (c.operand? d) := by
  rw [operand?]
  refine (reference?_runs h).bind ?_
  rintro ⟨r, e, he⟩ us - hpost
  cases r with
  | some r => exact .done (.some (hpost.2 rfl))
  | none =>
    have hus : PassedSign (b :: before) c us e := hpost.1 rfl
    dsimp only
    cases hvalue : e.token.value? with
    | some v =>
      have hyields := Token.yields_of_value? hvalue
      refine Runs.next_bind (TokenKind.isCloser_of_yields hyields) ?_
      rintro ⟨f, hf⟩
      exact .done (.some (hus.yields_cons h hb hyields))
    | none =>
      refine Runs.eat_bind rfl
        (fun hparen => .done (.none ⟨hus, Token.yields_eq_false hvalue hparen⟩)) ?_
      rintro ⟨f, hf⟩ hparen
      have hclear : Clear (e.token :: us) := hus.yields_cons h hb (by rw [hparen]; rfl)
      refine (skip_runs hclear rfl (by decide)).bind ?_
      rintro ⟨_, g, hg⟩ us' - hclear'
      dsimp only at hg hclear' ⊢
      refine (ih.expression hclear' (by omega)).bind ?_
      rintro ⟨inner, i, hi⟩ ws - hended
      refine Runs.expect_bind rfl ?_
      rintro ⟨j, hj⟩ hclosing
      exact .done (.some (hended.rightParen hclosing))

theorem argument?_runs {b : Token} {before : List Token} (h : Clear (b :: before))
    (hb : b.kind = .space) (hn : 3 * c.rest.length + 1 < n + 1) :
    Runs (b :: before) c (Tries (PassedSign (b :: before) c)) (c.argument? d) := by
  rw [argument?]
  refine (names?_runs (Z := fun us e => us = b :: before ∧ e = c) h.ready fun _ => ⟨rfl, rfl⟩).bind ?_
  rintro ⟨path, e, he⟩ us - hpost
  dsimp only
  split
  · have hclear : Clear us := hpost.2 rfl
    refine Runs.eat_bind rfl (fun _ => .done (.some hclear)) ?_
    rintro ⟨f, hf⟩ hequals
    have hclear' := hclear.cons (t := e.token) (by rw [hequals]; decide)
    dsimp only at hclear' ⊢
    refine (ih.operand hclear' (.inr hequals) (by omega)).bind ?_
    rintro ⟨value, g, hg⟩ us' - hpost'
    cases value with
    | some value => exact .done (.some (hpost'.2 rfl))
    | none => exact .error
  · exact .done (.some (hpost.2 rfl))
  · obtain ⟨rfl, hec⟩ := hpost.1 rfl
    dsimp only at hec ⊢
    subst hec
    refine (ih.operand h (.inl hb) (by omega)).bind ?_
    rintro ⟨value, f, hf⟩ us - hpost'
    cases value with
    | some value => exact .done (.some (hpost'.2 rfl))
    | none => exact .done (.none (hpost'.1 rfl).1)

theorem arguments_runs (h : Clear trail) (hn : 3 * c.rest.length < n + 1) :
    Runs trail c (fun _ us _ => Ended us) (c.arguments d) := by
  rw [arguments]
  refine Runs.eat_bind rfl (fun _ => .done (.clear h)) ?_
  rintro ⟨e, he⟩ hspace
  have hclear := h.cons (t := c.token) (by rw [hspace]; decide)
  dsimp only
  refine (ih.argument hclear hspace (by omega)).bind ?_
  rintro ⟨arg, f, hf⟩ us - hpost
  cases arg with
  | none =>
    obtain ⟨-, rfl⟩ := hpost.1 rfl
    refine .done ?_
    split
    · next hat => exact .atSign hclear hspace hat
    · exact .clear hclear
  | some arg =>
    dsimp only at hpost ⊢
    refine (ih.arguments (hpost.2 rfl) (by omega)).bind ?_
    rintro ⟨args, g, hg⟩ us' - hended
    exact .done hended

end

theorem signedBelow (d : Dialect) (n : Nat) : SignedBelow d n := by
  induction n with
  | zero => constructor <;> (intros; omega)
  | succ n ih =>
    exact {
      call := fun fallback h hn => call_runs ih h hn fallback
      expression := fun h hn => expression_runs ih h hn
      operand := fun h hb hn => operand?_runs ih h hb hn
      argument := fun h hb hn => argument?_runs ih h hb hn
      arguments := fun h hn => arguments_runs ih h hn }

structure PastSign (c e : Cursor) : Prop where
  refers : e.token.kind.refers = false
  passed : if c.token.kind = .atSign then ∃ h, c.next = .ok ⟨e, h⟩ else e = c

theorem PassedSign.pastSign {ts : List Token} {e : Cursor}
    (h : PassedSign trail c (ts.reverse ++ trail) e) (hpasses : c.Passes ts e) : c.PastSign e := by
  obtain ⟨hrefers, hts⟩ := h
  refine ⟨hrefers, ?_⟩
  split at hts
  · next hat =>
    rw [if_pos hat]
    have hreverse : ts.reverse = [c.token] := List.append_cancel_right hts
    obtain rfl : ts = [c.token] := List.reverse_eq_iff.1 hreverse
    cases hpasses with
    | next _ hn hrest =>
      cases hrest
      exact ⟨_, next_eq hn⟩
  · next hat =>
    rw [if_neg hat]
    obtain rfl := List.reverse_eq_nil_iff.1 (List.append_left_eq_self.1 hts)
    cases hpasses
    rfl

theorem pastSign_of_reference? {a : c.Ahead (Option Reference)} (h : c.reference? = .ok a)
    (hnone : a.result = none) : c.PastSign a.cursor := by
  obtain ⟨ts, hpasses, hpost⟩ := reference?_runs .nil a h
  exact (hpost.1 hnone).pastSign hpasses

theorem pastSign_of_operand? {a : c.Ahead (Option Expr)} (h : c.operand? d = .ok a)
    (hnone : a.result = none) : a.cursor.token.kind.yields = false ∧ c.PastSign a.cursor := by
  have hclear : Clear [⟨.space, [' ']⟩] := Clear.nil.cons (by decide)
  obtain ⟨ts, hpasses, hpost⟩ :=
    (signedBelow d _).operand hclear (.inl rfl) (Nat.lt_succ_self _) a h
  obtain ⟨hpassed, hyields⟩ := hpost.1 hnone
  exact ⟨hyields, hpassed.pastSign hpasses⟩

end Cursor
end Stencil
