import SchemaGen.Proofs.Lookahead
/-!
# Layout

Comments and blanks only keep tokens apart. A text whose gaps are replaced by other blanks is cut into the same
tokens, which stand at other places.
-/
namespace SchemaGen
open Text Lexeme

/-- Gaps, one at least, stand at the start of a text, and the second text follows them. -/
inductive SkipsTo : List Char → List Char → Prop
  | last {c : Char} {cs : List Char} {n : Nat} (gap : lexeme? (c :: cs) = some ⟨.gap, n⟩) :
    SkipsTo (c :: cs) (cs.drop n)
  | more {c : Char} {cs rest : List Char} {n : Nat} (gap : lexeme? (c :: cs) = some ⟨.gap, n⟩)
    (skips : SkipsTo (cs.drop n) rest) : SkipsTo (c :: cs) rest

/-- The second text is the first one with every longest run of gaps replaced by blanks, one at least. -/
inductive Respaced : List Char → List Char → Prop
  | done : Respaced [] []
  | token {c : Char} {cs ds : List Char} {n : Nat} (token : lexeme? (c :: cs) = some ⟨.token, n⟩)
    (rest : Respaced (cs.drop n) ds) : Respaced (c :: cs) (c :: (cs.take n ++ ds))
  | gap {cs rest blanks ds : List Char} (skips : SkipsTo cs rest) (longest : (lexeme? rest).map (·.kind) ≠ some .gap)
    (nonempty : blanks ≠ []) (blank : ∀ c ∈ blanks, isBlank c) (respaced : Respaced rest ds) :
    Respaced cs (blanks ++ ds)

section lexemes
variable {c : Char} {cs : List Char} {n : Nat}

theorem nameRun_le (cs : List Char) : nameRun cs ≤ cs.length := by
  induction cs with
  | nil => exact Nat.le_refl 0
  | cons c cs ih =>
    unfold nameRun
    split
    · simpa using ih
    · exact Nat.zero_le _

theorem unsigned?_le (h : unsigned? cs = some n) : n ≤ cs.length := by
  rcases List.mem_append.mp (List.mem_of_find?_eq_some h) with h | h
  · exact hexReading_le h
  · exact decimalReadings_le h

theorem number?_le (h : number? (c :: cs) = some n) : n ≤ cs.length := by
  rw [number?] at h
  split at h
  · exact unsigned?_le h
  · obtain ⟨k, whole, rfl⟩ := Option.map_eq_some_iff.mp h
    have bound := unsigned?_le whole
    rw [List.length_cons] at bound
    omega

theorem name?_le (h : name? (c :: cs) = some n) : n ≤ cs.length := by
  rw [name?] at h
  split at h
  · cases h
    exact nameRun_le cs
  · cases h

theorem punctuation?_eq_zero (h : punctuation? (c :: cs) = some n) : n = 0 := by
  rw [punctuation?] at h
  split at h
  · cases h
    rfl
  · cases h

theorem token?_le (h : token? (c :: cs) = some n) : n ≤ cs.length := by
  by_cases quote : c = '"' ∨ c = '\x27'
  · rw [token?_quote quote] at h
    exact (stringRest?_take (by rcases quote with rfl | rfl <;> decide) h).1
  have string : string? (c :: cs) = none := by simp [string?, quote]
  rw [token?, string] at h
  cases number : number? (c :: cs) with
  | some k =>
    rw [number] at h
    cases h
    exact number?_le number
  | none =>
    cases name : name? (c :: cs) with
    | some k =>
      rw [number, name] at h
      cases h
      exact name?_le name
    | none =>
      rw [number, name] at h
      have single : punctuation? (c :: cs) = some n := h
      have zero := punctuation?_eq_zero single
      omega

theorem lexeme?_token_le (h : lexeme? (c :: cs) = some ⟨.token, n⟩) : n ≤ cs.length :=
  token?_le (lexeme?_eq_token.mp h).2.2

theorem lexeme?_eq_gap :
    lexeme? cs = some ⟨.gap, n⟩ ↔ comment? cs = some n ∨ comment? cs = none ∧ blanks? cs = some n := by
  unfold lexeme?
  cases comment? cs <;> cases blanks? cs <;> cases string? cs <;> cases number? cs <;> cases name? cs <;>
    cases punctuation? cs <;> simp

theorem isBreak_of_gap (h : lexeme? (c :: cs) = some ⟨.gap, n⟩) : isBreak c := by
  rcases lexeme?_eq_gap.mp h with comment | ⟨_, blanks⟩
  · by_cases slash : c = '/'
    · simp [isBreak, slash]
    · simp [comment?, slash] at comment
  · by_cases blank : isBlank c
    · simp [isBreak, blank]
    · simp [blanks?, blank] at blanks

/-- A star begins nothing, so that the start of a block comment that never ends is no token either. -/
theorem lexeme?_star (cs : List Char) : lexeme? ('*' :: cs) = none := by
  have comment : comment? ('*' :: cs) = none := by simp [comment?]
  have blank : isBlank '*' = false := by decide
  have unsigned : unsigned? ('*' :: cs) = none := unsigned?_eq_none (by decide) (by decide) cs
  have start : isNameStart '*' = false := by decide
  have punctuation : isPunctuation '*' = false := by decide
  simp [lexeme?, comment, blanks?, blank, string?, number?, unsigned, name?, start, punctuation?, punctuation]

theorem token?_slash (cs : List Char) : token? ('/' :: cs) = some 0 := by
  have unsigned : unsigned? ('/' :: cs) = none := unsigned?_eq_none (by decide) (by decide) cs
  have start : isNameStart '/' = false := by decide
  have punctuation : isPunctuation '/' = true := by decide
  simp [token?, string?, number?, unsigned, name?, start, punctuation?, punctuation]

end lexemes

theorem SkipsTo.atBreak {cs rest : List Char} (h : SkipsTo cs rest) : AtBreak cs := by
  rintro c hc
  cases h with
  | last gap =>
    cases hc
    exact isBreak_of_gap gap
  | more gap _ =>
    cases hc
    exact isBreak_of_gap gap

/-- Up to the next gap the two texts are the same. -/
theorem Respaced.exists_common {cs ds : List Char} (h : Respaced cs ds) :
    ∃ u x y, cs = u ++ x ∧ ds = u ++ y ∧ AtBreak x ∧ ∀ d ∈ y.head?, isBlank d := by
  induction h with
  | done => exact ⟨[], [], [], rfl, rfl, by simp [AtBreak], by simp⟩
  | @token c cs ds n token rest ih =>
    obtain ⟨u, x, y, left, right, stop, blank⟩ := ih
    refine ⟨c :: (cs.take n ++ u), x, y, ?_, ?_, stop, blank⟩
    · rw [List.cons_append, List.append_assoc, ← left, List.take_append_drop]
    · rw [List.cons_append, List.append_assoc, ← right]
  | @gap cs rest blanks ds skips longest nonempty blank respaced ih =>
    refine ⟨[], cs, blanks ++ ds, rfl, rfl, skips.atBreak, ?_⟩
    intro d hd
    cases blanks with
    | nil => exact absurd rfl nonempty
    | cons b blanks =>
      cases hd
      exact blank _ List.mem_cons_self

theorem Respaced.head_ne_star {cs ds : List Char} : ¬ Respaced ('*' :: cs) ds := by
  intro h
  cases h with
  | token token rest => simp [lexeme?_star] at token
  | gap skips longest nonempty blank respaced => exact absurd (skips.atBreak '*' rfl) (by decide)

theorem Respaced.head_not_blank {cs ds : List Char} (h : Respaced cs ds)
    (longest : (lexeme? cs).map (·.kind) ≠ some .gap) : ∀ d ∈ ds.head?, isBlank d = false := by
  intro d hd
  cases h with
  | done => cases hd
  | token token rest =>
    cases hd
    exact blanks?_cons.mp (lexeme?_eq_token.mp token).2.1
  | gap skips _ _ _ _ =>
    cases skips with
    | last gap => simp [gap] at longest
    | more gap _ => simp [gap] at longest

/-- A token stays what it is when all that follows it is laid out anew. -/
theorem Respaced.lexeme?_token {c : Char} {cs ds : List Char} {n : Nat} (token : lexeme? (c :: cs) = some ⟨.token, n⟩)
    (rest : Respaced (cs.drop n) ds) : lexeme? (c :: (cs.take n ++ ds)) = some ⟨.token, n⟩ := by
  obtain ⟨u, x, y, left, right, stop, blank⟩ := rest.exists_common
  have bound := lexeme?_token_le token
  have whole : c :: cs = c :: (cs.take n ++ u) ++ x := by
    rw [List.cons_append, List.append_assoc, ← left, List.take_append_drop]
  rw [right, ← List.append_assoc, ← List.cons_append]
  refine lexeme?_append ?_ ?_ blank
  · rw [whole] at token
    refine lexeme?_of_append token stop ?_
    simp only [List.length_cons, List.length_append, List.length_take]
    omega
  · -- A slash that is a token has no star after it, since nothing that can be scanned begins with one.
    intro tail block
    obtain ⟨rfl, afterSlash⟩ := List.cons.inj block
    have single := (lexeme?_eq_token.mp token).2.2
    rw [token?_slash] at single
    cases single
    rw [List.take_zero, List.nil_append] at afterSlash
    rw [left, afterSlash, List.cons_append] at rest
    exact rest.head_ne_star

namespace Tokens

def texts (ts : Tokens) : List String :=
  ts.list.map (·.text)

@[simp] theorem texts_cons (t : Token) (ts : Tokens) : (cons t ts).texts = t.text :: ts.texts := rfl

section scan
variable {here : Position} {c : Char} {cs : List Char} {n : Nat}

theorem scanFrom_gap (h : lexeme? (c :: cs) = some ⟨.gap, n⟩) :
    scanFrom here (c :: cs) = scanFrom (here.after (c :: cs.take n)) (cs.drop n) := by
  rw [scanFrom, h]

theorem scanFrom_token (h : lexeme? (c :: cs) = some ⟨.token, n⟩) :
    scanFrom here (c :: cs) =
      (scanFrom (here.after (c :: cs.take n)) (cs.drop n)).map (cons ⟨.ofList (c :: cs.take n), here⟩) := by
  rw [scanFrom, h]

theorem scanFrom_skipsTo {rest : List Char} (h : SkipsTo cs rest) (here : Position) :
    ∃ there, scanFrom here cs = scanFrom there rest := by
  induction h generalizing here with
  | last gap => exact ⟨_, scanFrom_gap gap⟩
  | more gap _ ih =>
    obtain ⟨there, same⟩ := ih (here.after _)
    exact ⟨there, (scanFrom_gap gap).trans same⟩

theorem lexeme?_blanks {blanks ds : List Char} (blank : ∀ d ∈ c :: blanks, isBlank d)
    (stop : ∀ d ∈ ds.head?, isBlank d = false) :
    lexeme? (c :: (blanks ++ ds)) = some ⟨.gap, blanks.length⟩ := by
  have first := blank c List.mem_cons_self
  have run : (blanks ++ ds).takeWhile isBlank = blanks := by
    rw [List.takeWhile_append_of_pos fun d hd => blank d (List.mem_cons_of_mem c hd)]
    cases ds with
    | nil => simp
    | cons d ds => simp [stop d rfl]
  refine lexeme?_eq_gap.mpr (.inr ⟨?_, ?_⟩)
  · have slash : c ≠ '/' := by
      rintro rfl
      exact absurd first (by decide)
    simp [comment?, slash]
  · simp [blanks?, first, run]

theorem scanFrom_blanks {blanks ds : List Char} (nonempty : blanks ≠ []) (blank : ∀ d ∈ blanks, isBlank d)
    (stop : ∀ d ∈ ds.head?, isBlank d = false) (here : Position) :
    scanFrom here (blanks ++ ds) = scanFrom (here.after blanks) ds := by
  cases blanks with
  | nil => exact absurd rfl nonempty
  | cons b blanks =>
    rw [List.cons_append, scanFrom_gap (lexeme?_blanks blank stop), List.take_left, List.drop_left]

theorem scanFrom_respaced {ds : List Char} (h : Respaced cs ds) (here there : Position) :
    ∃ ts us, scanFrom here cs = .ok ts ∧ scanFrom there ds = .ok us ∧ us.texts = ts.texts := by
  induction h generalizing here there with
  | done => exact ⟨⟨[], here⟩, ⟨[], there⟩, by rw [scanFrom], by rw [scanFrom], rfl⟩
  | @token c cs ds n token rest ih =>
    have bound := lexeme?_token_le token
    have length : (cs.take n).length = n := List.length_take_of_le bound
    obtain ⟨ts, us, left, right, same⟩ := ih (here.after (c :: cs.take n)) (there.after (c :: cs.take n))
    have again := Respaced.lexeme?_token token rest
    refine ⟨cons ⟨.ofList (c :: cs.take n), here⟩ ts, cons ⟨.ofList (c :: cs.take n), there⟩ us, ?_, ?_, ?_⟩
    · rw [scanFrom_token token, left]
      rfl
    · rw [scanFrom_token again, List.take_left' length, List.drop_left' length, right]
      rfl
    · rw [texts_cons, texts_cons, same]
  | @gap cs rest blanks ds skips longest nonempty blank respaced ih =>
    obtain ⟨after, skipped⟩ := scanFrom_skipsTo skips here
    obtain ⟨ts, us, left, right, same⟩ := ih after (there.after blanks)
    refine ⟨ts, us, skipped.trans left, ?_, same⟩
    rw [scanFrom_blanks nonempty blank (respaced.head_not_blank longest), right]

end scan

end Tokens

end SchemaGen
