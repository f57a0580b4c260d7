import Stencil.Cursor
import Stencil.Proofs.Lexemes

set_option autoImplicit false

/-!
# Cursors over a known text

What the readers of a cursor give when the text from its token on is known, up to paths of names.
-/
namespace Stencil

def Always {ε α : Type} (p : α → Prop) (x : Except ε α) : Prop := ∀ a, x = .ok a → p a

namespace Always
variable {ε α β : Type} {p : α → Prop} {q : β → Prop}

theorem ok {a : α} (h : p a) : Always (ε := ε) p (.ok a) := by
  intro a' ha
  cases ha
  exact h

theorem error {e : ε} : Always p (.error e) := by
  intro a ha
  cases ha

theorem bind {x : Except ε α} {f : α → Except ε β} (h : Always p x)
    (hf : ∀ a, p a → Always q (f a)) : Always q (x >>= f) := by
  cases x with
  | error e => exact error
  | ok a => exact hf a (h a rfl)

theorem map {x : Except ε α} {f : α → β} (h : Always p x) (hf : ∀ a, p a → q (f a)) :
    Always q (f <$> x) := by
  cases x with
  | error e => exact error
  | ok a => exact ok (hf a (h a rfl))

theorem trivial {x : Except ε α} : Always (fun _ => True) x := fun _ _ => True.intro

end Always

namespace Cursor

def At (c : Cursor) (cs : List Char) : Prop := Token.read cs = .ok (c.token, c.rest)

/-- A reading ends well, with the given result and cursor. -/
def Gives {c : Cursor} {α : Type} (x : Except Failure (c.Ahead α)) (r : α) (d : Cursor) : Prop :=
  ∃ h, x = .ok ⟨r, d, h⟩

theorem ok_bind {ε α β : Type} (a : α) (f : α → Except ε β) : (Except.ok a >>= f) = f a := rfl

theorem bind_eq_ok {ε α β : Type} {x : Except ε α} {f : α → Except ε β} {b : β} :
    (x >>= f) = .ok b ↔ ∃ a, x = .ok a ∧ f a = .ok b := by
  cases x with
  | error e =>
    constructor
    · intro h
      cases h
    · rintro ⟨_, h, -⟩
      cases h
  | ok a =>
    constructor
    · exact fun h => ⟨a, rfl, h⟩
    · rintro ⟨_, h, h'⟩
      cases h
      exact h'

section
variable {c d : Cursor} {cs : List Char} {kind : TokenKind}

theorem At.chars (h : c.At cs) : c.chars = cs := (Token.append_of_read h).1

theorem At.left (h : c.At cs) : c.left = cs.length := congrArg List.length h.chars

theorem At.lt (h : c.At cs) : c.rest.length < cs.length := Token.length_lt_of_read h

theorem At.eq (h : c.At cs) {t : Token} {rest : List Char} (ht : Token.read cs = .ok (t, rest)) :
    c = ⟨t, rest⟩ := by
  unfold At at h
  rw [h] at ht
  cases ht
  rfl

theorem start_eq (h : c.At cs) : start cs = .ok ⟨c, h.lt⟩ := by
  unfold start
  split
  · next hread => cases h.eq hread; rfl
  · next hread => rw [h] at hread; cases hread

theorem at_of_start {p : { c : Cursor // c.rest.length < cs.length }} (h : start cs = .ok p) :
    p.1.At cs := by
  unfold start at h
  split at h
  · next hread => cases h; exact hread
  · cases h

theorem next_eq (h : d.At c.rest) : c.next = .ok ⟨d, h.lt⟩ := start_eq h

theorem eat_eq_none (h : c.token.kind ≠ kind) : c.eat kind = .ok none := if_neg h

theorem eat_eq_some (h : c.token.kind = kind) (hd : d.At c.rest) :
    c.eat kind = .ok (some ⟨d, hd.lt⟩) := by
  unfold eat
  rw [if_pos h, next_eq hd]
  rfl

theorem skip_eq_false (h : c.token.kind ≠ kind) : c.skip kind = .ok (c.here false) := by
  unfold skip
  rw [eat_eq_none h]
  rfl

theorem skip_eq_true (h : c.token.kind = kind) (hd : d.At c.rest) :
    c.skip kind = .ok ⟨true, d, Nat.le_of_lt hd.lt⟩ := by
  unfold skip
  rw [eat_eq_some h hd]
  rfl

theorem expect_eq (h : c.token.kind = kind) (hd : d.At c.rest) :
    c.expect kind = .ok ⟨d, hd.lt⟩ := by
  unfold expect
  rw [eat_eq_some h hd]
  rfl

theorem upTo_eq {text : List Char} (hc : c.At (text ++ cs)) (hd : d.At cs) :
    c.upTo d = String.ofList text := by
  have hlength : c.left - d.left = text.length := by
    rw [hc.left, hd.left, List.length_append, Nat.add_sub_cancel]
  unfold upTo
  rw [hlength, hc.chars, List.take_left]

theorem kind_of_blank {b : Char} (hb : Text.isBlank b = true) (hc : c.At (b :: cs)) :
    c.token.kind = .space := by
  rw [hc.eq (Token.read_blank hb cs)]

end

def nameOf (n : List Char) : String := Token.name ⟨.ident, n⟩

def pathText (n : List Char) (later : List (Char × List Char)) : List Char :=
  n ++ later.flatMap fun step => step.1 :: step.2

def stepsOf (separator : String) (n : List Char) : List (Char × List Char) → List (String × String)
  | [] => [(separator, nameOf n)]
  | (s, m) :: later => (separator, nameOf n) :: stepsOf (String.ofList [s]) m later

theorem map_snd_stepsOf (separator : String) (n : List Char) (later : List (Char × List Char)) :
    (stepsOf separator n later).map Prod.snd = nameOf n :: later.map fun step => nameOf step.2 := by
  induction later generalizing separator n with
  | nil => rfl
  | cons step later ih =>
    change nameOf n :: (stepsOf _ step.2 later).map Prod.snd = _
    rw [ih]
    rfl

theorem symbol?_separator {s : Char} (h : s = '.' ∨ s = '/') :
    ∃ kind, Token.symbol? s = some kind ∧ (kind = .dot ∨ kind = .slash) := by
  rcases h with rfl | rfl
  · exact ⟨.dot, rfl, .inl rfl⟩
  · exact ⟨.slash, rfl, .inr rfl⟩

/-- What may stand behind a name: no name goes on with it. -/
structure EndsName (e : Char) : Prop where
  name : Token.isNameChar e = false
  digit : e.isDigit = false

theorem endsName_separator {s : Char} (h : s = '.' ∨ s = '/') : EndsName s := by
  rcases h with rfl | rfl <;> exact ⟨by decide, by decide⟩

theorem endsName_blank {e : Char} (h : Text.isBlank e = true) : EndsName e :=
  ⟨Token.isNameChar_of_isBlank h, Token.isDigit_of_isBlank h⟩

section
variable {n : List Char} {later : List (Char × List Char)} {e : Char} {es : List Char}

theorem pathText_cons (s : Char) (m : List Char) (later : List (Char × List Char))
    (cs : List Char) : pathText n ((s, m) :: later) ++ cs = n ++ s :: (pathText m later ++ cs) := by
  simp [pathText]

theorem at_path (hn : Token.IsName n)
    (hlater : ∀ step ∈ later, (step.1 = '.' ∨ step.1 = '/') ∧ Token.IsName step.2)
    (he : EndsName e) (es : List Char) :
    ∃ c : Cursor, c.At (pathText n later ++ e :: es) ∧ c.token = ⟨.ident, n⟩ := by
  cases later with
  | nil =>
    refine ⟨⟨⟨.ident, n⟩, e :: es⟩, ?_, rfl⟩
    simpa [pathText, At] using hn.read_append he.name he.digit es
  | cons step later =>
    have hs := endsName_separator (hlater step List.mem_cons_self).1
    refine ⟨⟨⟨.ident, n⟩, step.1 :: (pathText step.2 later ++ e :: es)⟩, ?_, rfl⟩
    rw [pathText_cons]
    exact hn.read_append hs.name hs.digit _

theorem steps_gives (hn : Token.IsName n)
    (hlater : ∀ step ∈ later, (step.1 = '.' ∨ step.1 = '/') ∧ Token.IsName step.2)
    (he : EndsName e) {d : Cursor} (hd : d.At (e :: es))
    (hkind : ¬ (d.token.kind = .dot ∨ d.token.kind = .slash)) {c : Cursor}
    (hc : c.At (pathText n later ++ e :: es)) (separator : String) :
    Gives (c.steps separator) (stepsOf separator n later) d := by
  induction later generalizing n c separator with
  | nil =>
    have hread : Token.read (pathText n [] ++ e :: es) = .ok (⟨.ident, n⟩, e :: es) := by
      simpa [pathText] using hn.read_append he.name he.digit es
    cases hc.eq hread
    refine ⟨Nat.le_of_lt hd.lt, ?_⟩
    unfold steps
    rw [if_pos rfl, next_eq hd, ok_bind]
    exact if_neg hkind
  | cons step later ih =>
    obtain ⟨s, m⟩ := step
    obtain ⟨hsep, hm⟩ := hlater (s, m) List.mem_cons_self
    have hlater' := fun step h => hlater step (List.mem_cons_of_mem _ h)
    have hs := endsName_separator hsep
    rw [pathText_cons] at hc
    cases hc.eq (hn.read_append hs.name hs.digit _)
    obtain ⟨kind, hsymbol, hk⟩ := symbol?_separator hsep
    have hfirst : At ⟨⟨kind, [s]⟩, pathText m later ++ e :: es⟩ (s :: (pathText m later ++ e :: es)) :=
      Token.read_symbol hsymbol _
    obtain ⟨c', hc', -⟩ := at_path hm hlater' he es
    obtain ⟨hle, hsteps⟩ := ih hm hlater' hc' (String.ofList [s])
    have hnext : next ⟨⟨kind, [s]⟩, pathText m later ++ e :: es⟩ = .ok ⟨c', hc'.lt⟩ := next_eq hc'
    have hfound : found ⟨⟨kind, [s]⟩, pathText m later ++ e :: es⟩ = String.ofList [s] := rfl
    refine ⟨?_, ?_⟩
    · have h1 := hfirst.lt
      have h2 := hc'.lt
      exact Nat.le_trans hle (Nat.le_of_lt (Nat.lt_trans h2 h1))
    · rw [steps, if_pos rfl, next_eq hfirst, ok_bind]
      dsimp only
      rw [if_pos hk, hnext, ok_bind, hfound]
      dsimp only
      rw [hsteps]
      rfl

theorem names?_gives (hn : Token.IsName n)
    (hlater : ∀ step ∈ later, (step.1 = '.' ∨ step.1 = '/') ∧ Token.IsName step.2)
    (he : EndsName e) {d : Cursor} (hd : d.At (e :: es))
    (hkind : ¬ (d.token.kind = .dot ∨ d.token.kind = .slash)) {c : Cursor}
    (hc : c.At (pathText n later ++ e :: es)) :
    Gives c.names? (some (stepsOf "" n later)) d := by
  obtain ⟨c', hc', htoken⟩ := at_path hn hlater he es
  have hident : c.token.kind = .ident := by
    rw [hc.eq hc', htoken]
  obtain ⟨hle, hsteps⟩ := steps_gives hn hlater he hd hkind hc ""
  refine ⟨hle, ?_⟩
  unfold names?
  rw [if_pos hident, hsteps]
  rfl

theorem names?_eq_none {c : Cursor} (h : c.token.kind ≠ .ident) :
    c.names? = .ok (c.here none) := if_neg h

end

end Cursor
end Stencil
