import Stencil.Proofs.Lexing
import Stencil.Proofs.TokenGrammar

set_option autoImplicit false

/-!
# Tokens from an offset on

Offsets into a source count bytes, and a token can only be read between two characters. Read one
after the other from such a place on, tokens cover the source without gaps up to its end, or up to
the first character in front of which no token stands (`Token.exists_tiling`).
-/
namespace Stencil
namespace Token

variable {source : String}

def behind (p : source.Pos) : List Char := (source.sliceFrom p).copy.toList

/-- What is read at a place and the offset after that, which a token moves by the bytes it takes up. -/
def readAt (p : source.Pos) : Except Failure Token × String.Pos.Raw :=
  match read (behind p) with
  | .ok (t, _) => (.ok t, p.offset + String.ofList t.text)
  | .error e => (.error e, p.offset)

inductive Tokens (source : String) : String.Pos.Raw → List Token → String.Pos.Raw → Prop
  | nil (o : String.Pos.Raw) : Tokens source o [] o
  | cons {p : source.Pos} {t : Token} {ts : List Token} {o : String.Pos.Raw}
      (ht : (readAt p).1 = .ok t) (hts : Tokens source (readAt p).2 ts o) :
      Tokens source p.offset (t :: ts) o

/-- A token of the grammar between two places, the one to be preferred at the first of them. -/
structure Tile (p q : source.Pos) (t : Token) : Prop where
  parts : behind p = t.text ++ behind q
  offset : q.offset = p.offset + String.ofList t.text
  nonempty : t.text ≠ []
  grammar : ∃ cl, Preferred (behind p) cl t.text (behind q) ∧ Sorted cl t

/-- All the tokens from a place on, the place where no further one can be read, and why. -/
structure Tiling (start : source.Pos) (ts : List Token) (stop : source.Pos) (e : Failure) : Prop where
  tokens : Tokens source start.offset ts stop.offset
  /-- Reading goes this way and no other, from one place between two characters to the next. -/
  course : ∀ us o, Tokens source start.offset us o →
    us <+: ts ∧ ∃ p : source.Pos, p.offset = o ∧ behind start = texts us ++ behind p
  tiles : ∀ us t more, ts = us ++ t :: more →
    ∃ p q : source.Pos, Tokens source start.offset us p.offset ∧ Tile p q t
  /-- The failure leaves the offset where it was, and is reported for that place. -/
  failure : readAt stop = (.error e, stop.offset) ∧ e.left = (behind stop).length
  atEnd : e.kind = .unexpectedEnd ↔ stop = source.endPos
  unknown : stop ≠ source.endPos → Unmatched (behind stop) ∧
    ∃ c rest, behind stop = c :: rest ∧ e.kind = .unknownSymbol (String.singleton c)

theorem behind_startPos (source : String) : behind source.startPos = source.toList := by
  rw [behind, (String.splits_startPos source).copy_sliceFrom_eq]

theorem behind_eq_nil_iff (p : source.Pos) : behind p = [] ↔ p = source.endPos := by
  rw [behind, String.toList_eq_nil_iff, p.splits.eq_endPos_iff]

theorem exists_pos {p : source.Pos} {text rest : List Char} (h : text ++ rest = behind p) :
    ∃ q : source.Pos, q.offset = p.offset + String.ofList text ∧ behind q = rest := by
  have hsource : source = (source.sliceTo p).copy ++ String.ofList text ++ String.ofList rest := by
    rw [String.append_assoc, ← String.ofList_append, h, behind, String.ofList_toList]
    exact p.splits.eq_append
  have hoffset : p.offset + String.ofList text =
      ((source.sliceTo p).copy ++ String.ofList text).rawEndPos := by
    rw [p.splits.offset_eq_rawEndPos]
    exact String.Pos.Raw.ext String.utf8ByteSize_append.symm
  have hvalid := String.Pos.Raw.isValid_iff_exists_append.2 ⟨_, _, hsource, hoffset⟩
  have hsplits : (⟨_, hvalid⟩ : source.Pos).Splits _ _ := ⟨hsource, hoffset⟩
  exact ⟨⟨_, hvalid⟩, rfl, by rw [behind, hsplits.copy_sliceFrom_eq, String.toList_ofList]⟩

theorem readAt_ok {p : source.Pos} {t : Token} (h : (readAt p).1 = .ok t) :
    ∃ q : source.Pos, q.offset = (readAt p).2 ∧ Tile p q t := by
  unfold readAt at h ⊢
  cases hread : read (behind p) with
  | error e =>
    rw [hread] at h
    cases h
  | ok found =>
    obtain ⟨t', rest⟩ := found
    rw [hread] at h
    cases h
    obtain ⟨hparts, hnonempty⟩ := append_of_read hread
    obtain ⟨q, hoffset, rfl⟩ := exists_pos hparts
    exact ⟨q, hoffset, hparts.symm, hoffset, hnonempty, preferred_of_read hread⟩

theorem readAt_error {p : source.Pos} {e : Failure} (h : (readAt p).1 = .error e) :
    readAt p = (.error e, p.offset) ∧ read (behind p) = .error e := by
  unfold readAt at h ⊢
  cases hread : read (behind p) with
  | error e' =>
    rw [hread] at h
    cases h
    exact ⟨rfl, rfl⟩
  | ok found =>
    rw [hread] at h
    cases h

theorem Tokens.first {o o' : String.Pos.Raw} {ts : List Token}
    (h : Tokens source o ts o') :
    ts = [] ∧ o' = o ∨ ∃ (p : source.Pos) (t : Token) (us : List Token), p.offset = o ∧
      ts = t :: us ∧ (readAt p).1 = .ok t ∧ Tokens source (readAt p).2 us o' := by
  cases h with
  | nil => exact .inl ⟨rfl, rfl⟩
  | cons ht hts => exact .inr ⟨_, _, _, rfl, rfl, ht, hts⟩

theorem Tokens.of_append {us ts : List Token} {o o' : String.Pos.Raw}
    (h : Tokens source o (us ++ ts) o') :
    ∃ o₁, Tokens source o us o₁ ∧ Tokens source o₁ ts o' := by
  induction us generalizing o with
  | nil => exact ⟨o, .nil o, h⟩
  | cons t us ih =>
    rcases h.first with ⟨hnil, -⟩ | ⟨p, t', us', rfl, hcons, ht, hts⟩
    · cases hnil
    · cases hcons
      obtain ⟨o₁, hus, hts⟩ := ih hts
      exact ⟨o₁, hus.cons ht, hts⟩

/-- The tokens read from a place on end at a place, and their texts lie between the two. -/
theorem Tokens.exists_pos {start : source.Pos} {ts : List Token} {o : String.Pos.Raw}
    (h : Tokens source start.offset ts o) :
    ∃ p : source.Pos, p.offset = o ∧ behind start = texts ts ++ behind p := by
  induction ts generalizing start with
  | nil =>
    rcases h.first with ⟨-, ho⟩ | ⟨p, t, us, -, hcons, -⟩
    · exact ⟨start, ho.symm, rfl⟩
    · cases hcons
  | cons t ts ih =>
    rcases h.first with ⟨hnil, -⟩ | ⟨p, t', us, hp, hcons, ht, hts⟩
    · cases hnil
    · cases hcons
      obtain rfl := String.Pos.ext hp
      obtain ⟨q, hq, htile⟩ := readAt_ok ht
      rw [← hq] at hts
      obtain ⟨stop, hstop, hbehind⟩ := ih hts
      exact ⟨stop, hstop, by rw [htile.parts, hbehind, texts_cons, List.append_assoc]⟩

/-- Where no further token can be read, whoever reads from the same place on has come no further. -/
theorem Tokens.isPrefix {start stop : source.Pos} {ts us : List Token} {o : String.Pos.Raw}
    {e : Failure} (h : Tokens source start.offset ts stop.offset) (hstop : (readAt stop).1 = .error e)
    (h' : Tokens source start.offset us o) : us <+: ts := by
  induction us generalizing start ts with
  | nil => exact List.nil_prefix
  | cons u us ih =>
    rcases h'.first with ⟨hnil, -⟩ | ⟨p, u', us', hp, hcons, hu, hus⟩
    · cases hnil
    cases hcons
    obtain rfl := String.Pos.ext hp
    rcases h.first with ⟨-, ho⟩ | ⟨p', t, ts', hp', rfl, ht, hts⟩
    · obtain rfl := String.Pos.ext ho
      rw [hu] at hstop
      cases hstop
    · obtain rfl := String.Pos.ext hp'
      obtain ⟨q, hq, -⟩ := readAt_ok ht
      rw [hu] at ht
      cases ht
      rw [← hq] at hts hus
      exact List.cons_prefix_cons.2 ⟨rfl, ih hts hus⟩

theorem exists_tokens (start : source.Pos) : ∃ (ts : List Token) (stop : source.Pos) (e : Failure),
    Tokens source start.offset ts stop.offset ∧ (readAt stop).1 = .error e := by
  induction hlength : (behind start).length using Nat.strongRecOn generalizing start with
  | ind n ih =>
    cases ht : (readAt start).1 with
    | error e => exact ⟨[], start, e, .nil _, ht⟩
    | ok t =>
      obtain ⟨q, hq, htile⟩ := readAt_ok ht
      have hshorter : (behind q).length < n := by
        have := List.length_pos_iff.2 htile.nonempty
        rw [← hlength, htile.parts, List.length_append]
        omega
      obtain ⟨ts, stop, e, hts, hstop⟩ := ih _ hshorter q rfl
      rw [hq] at hts
      exact ⟨t :: ts, stop, e, hts.cons ht, hstop⟩

theorem Tokens.tile {us ts : List Token} {t : Token} {start : source.Pos} {o : String.Pos.Raw}
    (h : Tokens source start.offset (us ++ t :: ts) o) :
    ∃ p q : source.Pos, Tokens source start.offset us p.offset ∧ Tile p q t := by
  obtain ⟨o₁, hus, hts⟩ := h.of_append
  rcases hts.first with ⟨hnil, -⟩ | ⟨p, t', ts', rfl, hcons, ht, -⟩
  · cases hnil
  · cases hcons
    obtain ⟨q, -, htile⟩ := readAt_ok ht
    exact ⟨p, q, hus, htile⟩

theorem atEnd_iff_of_read {p : source.Pos} {e : Failure} (h : read (behind p) = .error e) :
    e.kind = .unexpectedEnd ↔ p = source.endPos := by
  rw [← behind_eq_nil_iff]
  rcases (failure_of_read h).2 with ⟨hnil, hkind⟩ | ⟨c, rest, hcons, hkind⟩
  · exact iff_of_true hkind hnil
  · refine iff_of_false ?_ ?_
    · rw [hkind]
      exact SyntaxErrorKind.noConfusion
    · rw [hcons]
      exact List.cons_ne_nil c rest

/-- Whatever the source and the place in it, reading tokens from there on covers what is behind with
tokens, and ends at the end of the source or at a character in front of which no token stands. -/
theorem exists_tiling (source : String) (start : source.Pos) :
    ∃ (ts : List Token) (stop : source.Pos) (e : Failure), Tiling start ts stop e := by
  obtain ⟨ts, stop, e, htokens, hstop⟩ := exists_tokens start
  obtain ⟨hfailure, hread⟩ := readAt_error hstop
  refine ⟨ts, stop, e, ?_⟩
  exact {
    tokens := htokens
    course := fun us o hus => ⟨htokens.isPrefix hstop hus, hus.exists_pos⟩
    tiles := by
      rintro us t more rfl
      exact htokens.tile
    failure := ⟨hfailure, (failure_of_read hread).1⟩
    atEnd := atEnd_iff_of_read hread
    unknown := by
      intro hne
      refine ⟨unmatched_of_read hread, ?_⟩
      rcases (failure_of_read hread).2 with ⟨hnil, -⟩ | hunknown
      · exact absurd ((behind_eq_nil_iff stop).1 hnil) hne
      · exact hunknown }

end Token
end Stencil
