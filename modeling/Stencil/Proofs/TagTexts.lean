import Stencil.Proofs.Spots
import Stencil.Proofs.TagReaders

set_option autoImplicit false

/-!
# Tags as they are written

A tag that is read is written as marks, tokens and a closer. Another one with the same tokens, white
space in its gaps and other tildes is read as the same tag.
-/
namespace Stencil

def Token.headOf (ts : List Token) : List Token :=
  (ts.dropWhile fun t => t.kind = .space).takeWhile fun t => t.kind.spells

namespace Cursor
open Token
variable {d : Dialect} {α : Type} {R : α → α → Prop}
  {F : (c : Cursor) → Except Failure (c.Ahead α)} {tail tail' rest rest' : List Char}
  {ts ts' : List Token} {extra : Nat} {after after' : Bool}

/-- Inside of a tag the reader ends at the same place, with related results, in every two tags that
differ in white space. -/
def Uniform (d : Dialect) (R : α → α → Prop) (F : (c : Cursor) → Except Failure (c.Ahead α)) :
    Prop :=
  ∀ (P : Pairing d) {trail : List Token} {c c' : Cursor}, P.aligned trail c c' →
    (∀ t ∈ trail, t.kind ≠ .leftParen) →
      Follows False trail c c' (fun r r' us e e' => R r r' ∧ P.Met us e e') (F c) (F c')

theorem uniform_tag (d : Dialect) (place : Option Branch) (sigil : Sigil) :
    Uniform d Tag.Moved fun c => c.tag d place sigil :=
  fun _ _ _ _ hc hparen => tag_follows hc hparen place sigil

theorem uniform_blockCall (d : Dialect) : Uniform d Eq fun c => c.blockCall d :=
  fun _ _ _ _ hc _ => blockCall_follows (.aligned hc)

theorem uniform_inclusion (d : Dialect) : Uniform d Eq fun c => c.inclusion d := by
  intro P trail c c' hc _
  unfold inclusion
  refine Follows.bind (inclusionName_follows (.aligned hc)) id ?_
  rintro ⟨name, e, he⟩ ⟨_, e', he'⟩ us - - ⟨rfl, hee⟩
  refine Follows.bind (inclusionTag_follows hee name) id ?_
  rintro ⟨tag, f, hf⟩ ⟨_, f', hf'⟩ ws - - ⟨rfl, hff⟩
  exact .done ⟨rfl, hff⟩

theorem Stands.beside (htail : EndsTag tail) (htail' : EndsTag tail') (hts : Lexes tail ts)
    (hpadded : Padded d [] ts ts') : ∃ c c' : Cursor, c.Stands tail ts ∧ c'.Stands tail' ts' ∧
      (Padded.pairing d htail htail').Beside [] c c' := by
  obtain ⟨c, hc⟩ := exists_of_lexes htail hts
  obtain ⟨c', hc'⟩ := exists_of_lexes htail' (hpadded.lexes hts htail htail')
  exact ⟨c, c', hc, hc', hpadded.beside htail htail' hc hc'⟩

theorem enter_skip {cs : List Char} {c : Cursor} (hc : c.At cs) {a : c.Ahead Bool}
    (ha : c.skip .space = .ok a) : enter cs = .ok ⟨a.cursor, Nat.lt_of_le_of_lt a.le hc.lt⟩ := by
  unfold enter
  rw [start_eq hc, ok_bind]
  dsimp only
  rw [ha]
  rfl

theorem exists_of_enter {cs : List Char} {p : { c : Cursor // c.rest.length < cs.length }}
    (hp : enter cs = .ok p) : ∃ (c : Cursor) (a : c.Ahead Bool), c.At cs ∧
      c.skip .space = .ok a ∧ a.cursor = p.1 := by
  unfold enter at hp
  obtain ⟨⟨c, hc⟩, hstart, hp⟩ := bind_eq_ok.1 hp
  obtain ⟨a, ha, hp⟩ := bind_eq_ok.1 hp
  cases hp
  exact ⟨c, a, at_of_start hstart, ha, rfl⟩

/-- Behind the opener, white space is passed by whichever tag has it. -/
theorem enter_follows (htail : EndsTag tail) (htail' : EndsTag tail') (hts : Lexes tail ts)
    (hpadded : Padded d [] ts ts') {p : { c : Cursor // c.rest.length < (texts ts ++ tail).length }}
    (hp : enter (texts ts ++ tail) = .ok p) :
    ∃ q us, enter (texts ts' ++ tail') = .ok q ∧
      (Padded.pairing d htail htail').aligned us p.1 q.1 ∧ ∀ t ∈ us, t.kind ≠ .leftParen := by
  obtain ⟨c, c', hc, hc', hbeside⟩ := Stands.beside htail htail' hts hpadded
  obtain ⟨e, a, he, ha, hcursor⟩ := exists_of_enter hp
  obtain rfl : e = c := he.eq hc.at_texts
  obtain ⟨b, us, hb, -, halign, hus, -⟩ := skip_space_follows hbeside a ha
  refine ⟨_, _, enter_skip hc'.at_texts hb, hcursor ▸ halign, ?_⟩
  exact forall_ne_of_skipped hus (List.forall_mem_nil _)

section
variable {trail : List Token} {c c' : Cursor}

theorem at_tails (htail : EndsTag tail) (htail' : EndsTag tail')
    (h : (Padded.pairing d htail htail').aligned trail c c')
    (hclose : c.token.kind.isCloser = true) :
    c.At tail ∧ c'.At tail' ∧ c'.token.kind.isCloser = true := by
  have hclose' : c'.token.kind.isCloser = true := by
    rw [((Padded.pairing d htail htail').like h).isCloser, hclose]
  obtain ⟨ts, ts', hc, hc', -, -⟩ := h
  obtain rfl := hc.eq_nil hclose
  obtain rfl := hc'.eq_nil hclose'
  exact ⟨hc.at_texts, hc'.at_texts, hclose'⟩

/-- Where an expression is over in the first tag in front of a closer, it is in the second. -/
theorem beforeCloser_follows (htail : EndsTag tail) (htail' : EndsTag tail') {f : Cursor}
    (h : (Padded.pairing d htail htail').Met trail c c') (hf : c.BeforeCloser f) :
    f.At tail ∧ ∃ f', c'.BeforeCloser f' ∧ f'.At tail' := by
  obtain ⟨hreach, hclose⟩ := hf
  cases h with
  | aligned h =>
    rcases hreach with rfl | ⟨hspace, hf⟩
    · obtain ⟨hat, hat', hclose'⟩ := at_tails htail htail' h hclose
      exact ⟨hat, c', ⟨.inl rfl, hclose'⟩, hat'⟩
    · obtain ⟨f', hf', halign⟩ := Pairing.next_space h hspace hf
      obtain ⟨hat, hat', hclose'⟩ := at_tails htail htail' halign hclose
      have hspace' := ((Padded.pairing d htail htail').like h).space_iff.2 hspace
      exact ⟨hat, f', ⟨.inr ⟨hspace', hf'⟩, hclose'⟩, hat'⟩
  | extra h hover =>
    obtain ⟨m, hm, halign⟩ := h.passed
    obtain rfl := hreach.resolve_right fun hspace => h.solid hspace.1
    obtain ⟨hat, hat', hclose'⟩ := at_tails htail htail' halign hclose
    exact ⟨hat, m, ⟨.inr ⟨h.space, hm⟩, hclose'⟩, hat'⟩

theorem at_chars_of_met (htail : EndsTag tail) (htail' : EndsTag tail')
    (h : (Padded.pairing d htail htail').Met trail c c') : c.At c.chars := by
  have hstands {e e' : Cursor} (h : (Padded.pairing d htail htail').aligned trail e e') :
      e.At e.chars := by
    obtain ⟨ts, ts', he, -⟩ := h
    exact he.at_texts.chars.symm ▸ he.at_texts
  cases h with
  | aligned h => exact hstands h
  | extra h => exact hstands h.passed.choose_spec.2

theorem closer_follows
    (h : (Padded.pairing d (endsTag_closerText extra after rest)
      (endsTag_closerText extra after' rest')).Met trail c c')
    {a : c.Ahead Bool} (ha : c.closer extra = .ok a) :
    a.result = after ∧ a.cursor.rest = rest ∧
      ∃ b, c'.closer extra = .ok b ∧ b.result = after' ∧ b.cursor.rest = rest' := by
  obtain ⟨f, hf, -⟩ := exists_beforeCloser (at_chars_of_met _ _ h) ha
  obtain ⟨hat, f', hf', hat'⟩ := beforeCloser_follows _ _ h hf
  obtain ⟨a', ha', hresult, hrest⟩ := hf.gives hat
  obtain rfl := Except.ok.inj (ha.symm.trans ha')
  exact ⟨hresult, hrest, hf'.gives hat'⟩

end

/-- What is read of a tag with its closer is read of a tag with white space in its gaps and another
closer. -/
theorem enclosed_follows (hF : Uniform d R F) (hts : Lexes (closerText extra after ++ rest) ts)
    (hpadded : Padded d [] ts ts')
    {p : { c : Cursor // c.rest.length < (texts ts ++ (closerText extra after ++ rest)).length }}
    (hp : enter (texts ts ++ (closerText extra after ++ rest)) = .ok p)
    {a : p.1.Ahead (α × Bool)} (ha : enclosed extra (F p.1) = .ok a) :
    a.result.2 = after ∧ a.cursor.rest = rest ∧
      ∃ q b, enter (texts ts' ++ (closerText extra after' ++ rest')) = .ok q ∧
        enclosed extra (F q.1) = .ok b ∧ R a.result.1 b.result.1 ∧ b.result.2 = after' ∧
          b.cursor.rest = rest' := by
  obtain ⟨q, us, hq, halign, hus⟩ := enter_follows (endsTag_closerText extra after rest)
    (endsTag_closerText extra after' rest') hts hpadded hp
  obtain ⟨x, hx, ha⟩ := bind_eq_ok.1 ha
  obtain ⟨trims, htrims, ha⟩ := bind_eq_ok.1 ha
  cases ha
  obtain ⟨y, ws, hy, -, hr, hmet⟩ := hF _ halign hus x hx
  obtain ⟨hresult, hrest, trims', htrims', hresult', hrest'⟩ := closer_follows hmet htrims
  exact ⟨hresult, hrest, q, _, hq, bind_eq_ok.2 ⟨y, hy, bind_eq_ok.2 ⟨trims', htrims', rfl⟩⟩, hr,
    hresult', hrest'⟩

/-- What is read as a tag with a closer is written as tokens and a closer. -/
theorem exists_tokens (hF : Uniform d R F) {cs : List Char}
    {p : { c : Cursor // c.rest.length < cs.length }} (hp : enter cs = .ok p)
    {a : p.1.Ahead (α × Bool)} (ha : enclosed extra (F p.1) = .ok a) :
    ∃ ts, cs = texts ts ++ (closerText extra a.result.2 ++ a.cursor.rest) ∧
      Lexes (closerText extra a.result.2 ++ a.cursor.rest) ts := by
  obtain ⟨x, hx, ha⟩ := bind_eq_ok.1 ha
  obtain ⟨trims, htrims, ha⟩ := bind_eq_ok.1 ha
  cases ha
  obtain ⟨c, space, hc, hspace, hcursor⟩ := exists_of_enter hp
  obtain ⟨b, us, hb, hfirst, halign, hus, -⟩ :=
    skip_space_follows (P := .self d) (.inl (rfl : c = c)) space hspace
  have hparen := forall_ne_of_skipped hus (List.forall_mem_nil _)
  rw [hcursor] at hfirst halign
  obtain ⟨y, ws, -, hsecond, -⟩ := hF (.self d) (rfl : p.1 = p.1) hparen x hx
  have hpasses := hfirst.passes.trans hsecond.passes
  have hchars : c.At c.chars := hc.chars.symm ▸ hc
  obtain ⟨f, ⟨hreach, -⟩, hf⟩ := exists_beforeCloser (hpasses.lexes hchars).2 htrims
  obtain ⟨ts, hts⟩ : ∃ ts, c.Passes ts f := by
    rcases hreach with rfl | ⟨hspace, hnext⟩
    · exact ⟨_, hpasses⟩
    · exact ⟨_, hpasses.trans (.single (by rw [hspace]; rfl) hnext)⟩
  refine ⟨ts, ?_, ?_⟩
  · have happend := hts.chars
    rwa [hc.chars, hf.chars] at happend
  · have hlexes := (hts.lexes hchars).1
    rwa [hf.chars] at hlexes

section
variable {c e : Cursor} {us : List Token}

theorem Passes.stands (h : c.Passes us e) (htail : EndsTag tail) (hc : c.Stands tail ts) :
    ∃ behind, ts = us ++ behind ∧ e.Stands tail behind := by
  induction h generalizing ts with
  | here c => exact ⟨ts, rfl, hc⟩
  | @next c n e us hclose hn h ih =>
    cases ts with
    | nil => cases hclose.symm.trans (hc.isCloser_of_nil htail)
    | cons t ts =>
      obtain ⟨behind, rfl, he⟩ := ih (hc.next hn)
      have htoken : c.token = t := congrArg Cursor.token hc.eq_of_cons
      exact ⟨behind, by rw [htoken]; rfl, he⟩

/-- Behind the head of a call with its closer there is white space or nothing. -/
theorem head_behind {call : c.Ahead (Call Expr)} {fallback : Option Helper}
    (hcall : c.call d fallback = .ok call) {f : Cursor} (hf : call.cursor.BeforeCloser f) :
    ∃ us e, c.Passes us e ∧ (∀ t ∈ us, t.kind.spells = true) ∧ e.token.kind.spells = false ∧
      call.result.name = String.ofList (texts us) := by
  obtain ⟨head, args, _, hhead, hargs, rfl⟩ := exists_of_call hcall
  obtain ⟨y, us, -, hpassage, -⟩ :=
    head_follows (Pairing.met_self d c) fallback head hhead
  refine ⟨us, head.cursor, hpassage.passes, (hpassage.spelled trivial).1, ?_, hpassage.passes.upTo⟩
  by_cases hspace : head.cursor.token.kind = .space
  · rw [hspace]
    rfl
  · rw [arguments, eat_eq_none hspace] at hargs
    cases hargs
    obtain ⟨hreach, hclose⟩ := hf
    obtain rfl := hreach.resolve_right fun h => hspace h.1
    exact TokenKind.spells_of_idle (TokenKind.idle_of_isCloser hclose)

theorem call_name (hc : c.Stands tail ts) (htail : EndsTag tail) {call : c.Ahead (Call Expr)}
    {fallback : Option Helper} (hcall : c.call d fallback = .ok call) {f : Cursor}
    (hf : call.cursor.BeforeCloser f) :
    call.result.name = String.ofList (texts (ts.takeWhile fun t => t.kind.spells)) := by
  obtain ⟨us, e, hpasses, hspells, hend, hname⟩ := head_behind hcall hf
  obtain ⟨behind, rfl, he⟩ := hpasses.stands htail hc
  have hbehind : behind.takeWhile (fun t => t.kind.spells) = [] := by
    cases behind with
    | nil => rfl
    | cons t behind =>
      have htoken : e.token = t := congrArg Cursor.token he.eq_of_cons
      rw [htoken] at hend
      exact List.takeWhile_cons_of_neg (by rw [hend]; exact Bool.false_ne_true)
  rw [hname, List.takeWhile_append_of_pos hspells, hbehind, List.append_nil]

end

theorem blockCall_name {cs : List Char} (htail : EndsTag tail) (hts : Lexes tail ts)
    (hcs : cs = texts ts ++ tail) {p : { c : Cursor // c.rest.length < cs.length }}
    (hp : enter cs = .ok p) {a : p.1.Ahead (Call Expr × Bool)}
    (ha : enclosed extra (p.1.blockCall d) = .ok a) :
    a.result.1.name = String.ofList (texts (headOf ts)) := by
  obtain ⟨c, space, hc, hspace, hcursor⟩ := exists_of_enter hp
  rw [hcs] at hc
  have hstands : c.Stands tail ts := ⟨hc, hts⟩
  have hfirst : p.1.Stands tail (ts.dropWhile fun t => t.kind = .space) := by
    rw [← hcursor]
    rcases (skip_cases (hc.chars.symm ▸ hc) hspace).2 with ⟨-, hkind, heq⟩ | ⟨-, hkind, hnext⟩
    · rw [heq]
      cases ts with
      | nil => exact hstands
      | cons t ts =>
        rw [hstands.eq_of_cons] at hkind
        rwa [List.dropWhile_cons_of_neg (by simpa using hkind)]
    · cases ts with
      | nil =>
        have hclose := hstands.isCloser_of_nil htail
        rw [hkind] at hclose
        cases hclose
      | cons s ts =>
        have hs : s.kind = .space := by
          rw [hstands.eq_of_cons] at hkind
          exact hkind
        rw [List.dropWhile_cons_of_pos (by simpa using hs)]
        have hnext' := hstands.next hnext
        cases ts with
        | nil => exact hnext'
        | cons t ts =>
          have ht := hts.ne_space htail hs
          rwa [List.dropWhile_cons_of_neg (by simpa using ht)]
  obtain ⟨call, hcall, ha⟩ := bind_eq_ok.1 ha
  obtain ⟨trims, htrims, ha⟩ := bind_eq_ok.1 ha
  cases ha
  obtain ⟨y, us, -, hpassage, -⟩ :=
    blockCall_follows (Pairing.met_self d p.1) call hcall
  have hat := (hpassage.passes.lexes (hfirst.at_texts.chars.symm ▸ hfirst.at_texts)).2
  obtain ⟨f, hf, -⟩ := exists_beforeCloser hat htrims
  obtain ⟨call', hcall', hchecked⟩ := bind_eq_ok.1 hcall
  obtain ⟨_, -, hchecked⟩ := bind_eq_ok.1 hchecked
  obtain rfl : call' = call := Except.ok.inj hchecked
  exact call_name hfirst htail hcall' hf

end Cursor

namespace Sigil

def mark : Sigil → List Char
  | .unescaped => ['&']
  | .opening => ['#']
  | .negated => ['^']
  | .closing => ['/']
  | .inclusion => ['>']
  | .comment => ['!']
  | .longComment => ['!', '-', '-']
  | .triple => ['\x7b']
  | .raw => ['\x7b', '\x7b']
  | .escaped => []

/-- The marks behind the two braces of a tag. Only further braces stand in front of the tilde. -/
def marks (sigil : Sigil) (trims : Bool) : List Char :=
  match sigil with
  | .raw | .triple => sigil.mark ++ tildeIf trims
  | _ => tildeIf trims ++ sigil.mark

structure Fits (sigil : Sigil) (trims : Bool) (inside : List Char) : Prop where
  tilde : sigil ∈ [.raw, .triple, .escaped] → trims = false → inside.head? ≠ some '~'
  brace : sigil ∈ [.triple, .escaped] → inside.head? ≠ some '\x7b'
  plain : sigil = .escaped → ∀ c ∈ inside.head?, c ∉ ['!', '&', '#', '^', '/', '>']
  dashes : sigil = .comment → ∀ cs, inside ≠ '-' :: '-' :: cs

theorem mark_take (cs : List Char) : (take cs).1.mark ++ (take cs).2 = cs ∧
    (take cs).1 ≠ .raw ∧ (take cs).1 ≠ .triple := by
  unfold take
  split <;> exact ⟨rfl, nofun, nofun⟩

theorem take_bang (cs : List Char) : (take ('!' :: cs)).1 ≠ .escaped := by
  by_cases hlong : ∃ ds, cs = '-' :: '-' :: ds
  · obtain ⟨ds, rfl⟩ := hlong
    exact nofun
  · rw [take_comment fun ds heq => hlong ⟨ds, heq⟩]
    exact nofun

theorem take_fits {inside : List Char} (h : ∀ c ∈ inside.head?, c ∉ ['!', '&', '#', '^', '/', '>']) :
    take inside = (.escaped, inside) := by
  cases inside with
  | nil => rfl
  | cons c cs => exact take_escaped (h c rfl) cs

end Sigil

namespace Opener
variable {sigil : Sigil} {trims : Bool} {inside : List Char}

theorem marks_append (cs : List Char) :
    (read cs).sigil.marks (read cs).trims ++ (read cs).rest = cs := by
  unfold read
  split
  · next cs => exact congrArg (['\x7b', '\x7b'] ++ ·) (tildeIf_takeTilde cs)
  · next cs _ => exact congrArg (['\x7b'] ++ ·) (tildeIf_takeTilde cs)
  · obtain ⟨htake, hraw, htriple⟩ := Sigil.mark_take (takeTilde cs).2
    have hmarks : ∀ sigil : Sigil, sigil ≠ .raw → sigil ≠ .triple → ∀ trims,
        sigil.marks trims = tildeIf trims ++ sigil.mark := by
      intro sigil hraw htriple trims
      cases sigil <;> first | rfl | exact absurd rfl hraw | exact absurd rfl htriple
    dsimp only
    rw [hmarks _ hraw htriple, List.append_assoc, htake, tildeIf_takeTilde]

theorem takeTilde_marks (h : trims = false → inside.head? ≠ some '~') :
    takeTilde (tildeIf trims ++ inside) = (trims, inside) := by
  cases trims with
  | true => rfl
  | false => exact takeTilde_tildeIf false (h rfl)

theorem read_marks (h : sigil.Fits trims inside) :
    read (sigil.marks trims ++ inside) = ⟨sigil, trims, inside⟩ := by
  have htilde := h.tilde
  have hbrace := h.brace
  cases sigil with
  | raw =>
    change read ('\x7b' :: '\x7b' :: (tildeIf trims ++ inside)) = _
    rw [read_raw_eq, takeTilde_marks (htilde (by decide))]
  | triple =>
    change read ('\x7b' :: (tildeIf trims ++ inside)) = _
    have hcons : ∀ cs : List Char, cs.head? ≠ some '\x7b' →
        read ('\x7b' :: cs) = ⟨.triple, (takeTilde cs).1, (takeTilde cs).2⟩ := by
      intro cs hcs
      cases cs with
      | nil => rfl
      | cons c cs => exact read_triple_eq (fun heq => hcs (congrArg some heq)) cs
    rw [hcons, takeTilde_marks (htilde (by decide))]
    cases trims with
    | true => exact nofun
    | false => exact hbrace (by decide)
  | escaped =>
    have htake := Sigil.take_fits (h.plain rfl)
    have hcons : ∀ cs : List Char, cs.head? ≠ some '\x7b' →
        read cs = ⟨(Sigil.take (takeTilde cs).2).1, (takeTilde cs).1,
          (Sigil.take (takeTilde cs).2).2⟩ := by
      intro cs hcs
      cases cs with
      | nil => rfl
      | cons c cs => exact read_eq (fun heq => hcs (congrArg some heq)) cs
    change read (tildeIf trims ++ [] ++ inside) = _
    rw [List.append_nil, hcons, takeTilde_marks (htilde (by decide)), htake]
    cases trims with
    | true => exact nofun
    | false => exact hbrace (by decide)
  | comment =>
    have htake := Sigil.take_comment (h.dashes rfl)
    cases trims with
    | true =>
      change read ('~' :: '!' :: inside) = _
      rw [read_eq (by decide)]
      change Opener.mk (Sigil.take ('!' :: inside)).1 true (Sigil.take ('!' :: inside)).2 = _
      rw [htake]
    | false =>
      change read ('!' :: inside) = _
      rw [read_eq (by decide), takeTilde_cons (by decide), htake]
  | _ => cases trims <;> rfl

theorem fits_of_read (h : read (sigil.marks trims ++ inside) = ⟨sigil, trims, inside⟩)
    (hbrace : sigil ∈ [.triple, .escaped] → inside.head? ≠ some '\x7b') :
    sigil.Fits trims inside where
  tilde := by
    rintro hmem rfl hhead
    obtain ⟨cs, rfl⟩ : ∃ cs, inside = '~' :: cs := by
      cases inside with
      | nil => cases hhead
      | cons c cs => exact ⟨cs, by rw [Option.some.inj hhead]⟩
    have htrims := congrArg Opener.trims h
    simp only [List.mem_cons, List.not_mem_nil, or_false] at hmem
    rcases hmem with rfl | rfl | rfl <;> cases htrims
  brace := hbrace
  plain := by
    rintro rfl c hc hmem
    obtain ⟨cs, rfl⟩ : ∃ cs, inside = c :: cs := by
      cases inside with
      | nil => cases hc
      | cons d ds => exact ⟨ds, by rw [Option.some.inj hc]⟩
    have hsigil := congrArg Opener.sigil h
    have hne : c ≠ '\x7b' := by
      rintro rfl
      exact absurd hmem (by decide)
    have htilde : c ≠ '~' := by
      rintro rfl
      exact absurd hmem (by decide)
    have htake : (Sigil.take (c :: cs)).1 = .escaped := by
      cases trims with
      | true => exact hsigil
      | false =>
        change (read (c :: cs)).sigil = .escaped at hsigil
        rwa [read_eq hne, takeTilde_cons htilde] at hsigil
    simp only [List.mem_cons, List.not_mem_nil, or_false] at hmem
    rcases hmem with rfl | rfl | rfl | rfl | rfl | rfl
    · exact Sigil.take_bang cs htake
    all_goals cases htake
  dashes := by
    rintro rfl cs rfl
    have hsigil := congrArg Opener.sigil h
    cases trims <;> cases hsigil

end Opener

section
open Token Cursor
variable {d : Dialect} {tail : List Char} {ts ts' : List Token} {t : Token}

theorem Token.Lexes.exists_head (h : Lexes tail (t :: ts)) :
    ∃ c text, t.text = c :: text ∧ c ≠ '~' ∧ c ≠ '\x7b' := by
  cases h with
  | cons hclose hread _ =>
    obtain ⟨c, text, htext⟩ := List.exists_cons_of_ne_nil (append_of_read hread).2
    refine ⟨c, text, htext, ?_, ?_⟩
    · rintro rfl
      rw [htext, List.cons_append, read_symbol (rfl : symbol? '~' = some .tilde)] at hread
      have hkind := congrArg (fun found => found.1.kind) (Except.ok.inj hread)
      rw [← hkind] at hclose
      cases hclose
    · rintro rfl
      rw [htext] at hread
      cases hread

theorem Token.EndsTag.head_ne {c : Char} (h : EndsTag tail) (hc : tail.head? = some c) :
    c = '~' ∨ c = '\x7d' := by
  obtain ⟨x, rest, rfl, hx⟩ := h
  obtain rfl := Option.some.inj hc
  exact hx

theorem Token.Lexes.head_ne_brace (h : Lexes tail ts) (htail : EndsTag tail) :
    (texts ts ++ tail).head? ≠ some '\x7b' := by
  intro hhead
  cases ts with
  | nil => rcases htail.head_ne hhead with heq | heq <;> cases heq
  | cons t ts =>
    obtain ⟨c, text, htext, -, hbrace⟩ := h.exists_head
    rw [texts_cons, htext] at hhead
    exact hbrace (Option.some.inj hhead)

def Opener.marking : List Char := ['!', '&', '#', '^', '/', '>', '~', '\x7b']

theorem Opener.isBlank_of_marking {c : Char} (h : c ∈ marking) : Text.isBlank c = false := by
  simp only [marking, List.mem_cons, List.not_mem_nil, or_false] at h
  rcases h with rfl | rfl | rfl | rfl | rfl | rfl | rfl | rfl <;> decide

theorem Token.White.head {s : Token} (h : s.White) (ts : List Token) (cs : List Char) :
    ∀ c ∈ (texts (s :: ts) ++ cs).head?, c ∉ Opener.marking := by
  obtain ⟨x, rest, hx⟩ := List.exists_cons_of_ne_nil h.nonempty
  rw [texts_cons, hx]
  rintro c hc hmem
  obtain rfl : x = c := Option.some.inj hc
  have hblank := h.blank x (hx ▸ List.mem_cons_self)
  rw [Opener.isBlank_of_marking hmem] at hblank
  cases hblank

/-- White space behind the marks of a tag, and other tildes, leave the marks what they are. -/
theorem Sigil.Fits.padded {sigil : Sigil} {extra : Nat} {before before' after after' : Bool}
    {rest rest' : List Char} (hsigil : sigil ≠ .comment)
    (h : sigil.Fits before (texts ts ++ (closerText extra after ++ rest)))
    (hts : Lexes (closerText extra after ++ rest) ts) (hpadded : Padded d [] ts ts')
    (hkeep : after' = true → after = true ∧ before' = before) :
    sigil.Fits before' (texts ts' ++ (closerText extra after' ++ rest')) := by
  have hhead : ∀ c ∈ (texts ts' ++ (closerText extra after' ++ rest')).head?,
      c ∉ Opener.marking ∨ (c = '~' → before' = before) ∧ c ≠ '\x7b' ∧
        (texts ts ++ (closerText extra after ++ rest)).head? = some c := by
    intro c hc
    cases hpadded with
    | nil =>
      cases after' with
      | false =>
        obtain rfl : '\x7d' = c := Option.some.inj hc
        exact .inl (by decide)
      | true =>
        obtain rfl : '~' = c := Option.some.inj hc
        obtain ⟨rfl, hbefore⟩ := hkeep rfl
        exact .inr ⟨fun _ => hbefore, by decide, rfl⟩
    | @same _ ts ts' t ht hpadded =>
      obtain ⟨x, text, hx, htilde, hbrace⟩ := hts.exists_head
      rw [texts_cons, hx] at hc ⊢
      obtain rfl : x = c := Option.some.inj hc
      exact .inr ⟨fun heq => absurd heq htilde, hbrace, rfl⟩
    | space _ hs _ => exact .inl (hs.head _ _ c hc)
    | gap hs _ _ _ _ => exact .inl (hs.head _ _ c hc)
    | last hs _ => exact .inl (hs.head _ _ c hc)
  refine ⟨fun hmem htrims hc => ?_, fun _ hc => ?_, fun heq c hc hmem => ?_, fun heq => absurd heq hsigil⟩
  · rcases hhead _ hc with hmarking | ⟨hbefore, -, hc⟩
    · exact hmarking (by decide)
    · exact h.tilde hmem (hbefore rfl ▸ htrims) hc
  · rcases hhead _ hc with hmarking | ⟨-, hbrace, -⟩
    · exact hmarking (by decide)
    · exact hbrace rfl
  · rcases hhead _ hc with hmarking | ⟨-, -, hc⟩
    · exact hmarking (List.mem_append_left ['~', '\x7b'] hmem)
    · exact h.plain heq c hc hmem

end
end Stencil
