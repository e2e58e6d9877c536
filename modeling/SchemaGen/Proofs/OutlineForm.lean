import SchemaGen.Proofs.Placement
/-!
# The form of an outline

An outline keeps the tokens it is read from, and its clauses stand where their marks put them: words have no marks
among them, a clause without a mark of its own comes last, before the brace that closes the block around it, and what is
left open at the end of a text has no such clause.
-/
namespace SchemaGen

namespace Clause

def Unmarked (words : List Token) : Prop :=
  ∀ t ∈ words, t.text ∉ [";", "\x7b", "\x7d"]

/-- Clauses as they stand one after the other, up to the brace `next` if there is one. -/
inductive Formed : Option Token → List Clause → Prop
  | nil {next : Option Token} : Formed next []
  | plain {next : Option Token} {words : List Token} {mark : Token} {cs : List Clause} (free : Unmarked words)
      (semicolon : mark.text = ";") (rest : Formed next cs) : Formed next (plain words mark :: cs)
  | block {next : Option Token} {words : List Token} {opening closing : Token} {body cs : List Clause}
      (free : Unmarked words) (opens : opening.text = "\x7b") (closes : closing.text = "\x7d")
      (inside : Formed (some closing) body) (rest : Formed next cs) :
      Formed next (block words opening body closing :: cs)
  | bare {words : List Token} {next : Token} (free : Unmarked words) (nonempty : words ≠ [])
      (closes : next.text = "\x7d") : Formed (some next) [bare words next]

theorem tokensOf_append (cs ds : List Clause) : tokensOf (cs ++ ds) = tokensOf cs ++ tokensOf ds := by
  induction cs with
  | nil => rfl
  | cons c cs ih => rw [List.cons_append, tokensOf, tokensOf, ih, List.append_assoc]

theorem tokensOf_singleton (c : Clause) : tokensOf [c] = c.tokens := by
  rw [tokensOf, tokensOf, List.append_nil]

theorem Formed.append {next : Option Token} {cs ds : List Clause} (h : Formed none cs) (more : Formed next ds) :
    Formed next (cs ++ ds) := by
  generalize marked : (none : Option Token) = before at h
  induction h with
  | nil => exact more
  | plain free semicolon _ ih => exact .plain free semicolon (ih marked)
  | block free opens closes inside _ _ ih => exact .block free opens closes inside (ih marked)
  | bare => cases marked

theorem Formed.mono {next : Option Token} {cs : List Clause} (h : Formed none cs) : Formed next cs := by
  have whole := h.append (Formed.nil : Formed next [])
  rwa [List.append_nil] at whole

theorem Formed.tail {next : Option Token} {c : Clause} {cs : List Clause} (h : Formed next (c :: cs)) :
    Formed next cs := by
  cases h with
  | plain _ _ rest => exact rest
  | block _ _ _ _ rest => exact rest
  | bare => exact .nil

end Clause

open Clause

namespace Remainder

def tokens : Remainder → List Token
  | nothing => []
  | statement start more => start :: more
  | block words opening body rest => words ++ opening :: (tokensOf body ++ rest.tokens)

def Formed : Remainder → Prop
  | nothing => True
  | statement start more => Unmarked (start :: more)
  | block words opening body rest =>
    Unmarked words ∧ opening.text = "\x7b" ∧ Clause.Formed none body ∧ rest.Formed

end Remainder

namespace Outline

/-- The outline has the form that its marks ask for and is made of the given tokens, which go on behind a stray
brace. -/
def Renders (o : Outline) (ts : List Token) : Prop :=
  match o.ending with
  | .stray closing =>
    closing.text = "\x7d" ∧ Clause.Formed (some closing) o.clauses ∧
      ∃ unread, ts = tokensOf o.clauses ++ closing :: unread
  | .ended rest => Clause.Formed none o.clauses ∧ rest.Formed ∧ ts = tokensOf o.clauses ++ rest.tokens

def tokensBefore : List Frame → List Token
  | [] => []
  | f :: stack => tokensBefore stack ++ tokensOf f.before.reverse ++ f.words ++ [f.opening]

structure Frame.Formed (f : Frame) : Prop where
  words : Unmarked f.words
  opening : f.opening.text = "\x7b"
  before : Clause.Formed none f.before.reverse

theorem close_renders {stack : List Frame} (frames : ∀ f ∈ stack, f.Formed) {clauses : List Clause}
    (formed : Clause.Formed none clauses) {rest : Remainder} (hr : rest.Formed) :
    (close clauses rest stack).Renders (tokensBefore stack ++ tokensOf clauses ++ rest.tokens) := by
  induction stack generalizing clauses rest with
  | nil => exact ⟨formed, hr, by simp [close, tokensBefore]⟩
  | cons f stack ih =>
    obtain ⟨frame, others⟩ := List.forall_mem_cons.mp frames
    have left : (Remainder.block f.words f.opening clauses rest).Formed :=
      ⟨frame.words, frame.opening, formed, hr⟩
    have outer := ih others frame.before left
    simpa [close, tokensBefore, Remainder.tokens] using outer

theorem leftOver_formed {words : List Token} (free : Unmarked words) :
    (leftOver words).Formed ∧ (leftOver words).tokens = words := by
  cases words with
  | nil => exact ⟨trivial, rfl⟩
  | cons start more => exact ⟨free, rfl⟩

/-- The clauses before a closing brace, with the words right before it as a clause without a mark. -/
theorem bodyBefore_formed {clauses : List Clause} (formed : Clause.Formed none clauses.reverse) {words : List Token}
    (free : Unmarked words.reverse) {t : Token} (closes : t.text = "\x7d") :
    Clause.Formed (some t) (bodyBefore clauses words t).reverse ∧
      tokensOf (bodyBefore clauses words t).reverse = tokensOf clauses.reverse ++ words.reverse := by
  cases words with
  | nil => exact ⟨formed.mono, by simp [bodyBefore]⟩
  | cons w words =>
    have last : Clause.Formed (some t) [bare (w :: words).reverse t] := .bare free (by simp) closes
    have body : (bodyBefore clauses (w :: words) t).reverse = clauses.reverse ++ [bare (w :: words).reverse t] := by
      simp [bodyBefore]
    rw [body, tokensOf_append, tokensOf_singleton]
    exact ⟨formed.append last, rfl⟩

theorem unmarked_nil : Unmarked ([] : List Token).reverse := by
  simp [Unmarked]

theorem readFrom_renders {stack : List Frame} (frames : ∀ f ∈ stack, f.Formed) {clauses : List Clause}
    (formed : Clause.Formed none clauses.reverse) {words : List Token} (free : Unmarked words.reverse)
    (ts : List Token) :
    (readFrom stack clauses words ts).Renders
      (tokensBefore stack ++ tokensOf clauses.reverse ++ words.reverse ++ ts) := by
  induction ts generalizing stack clauses words with
  | nil =>
    obtain ⟨left, written⟩ := leftOver_formed free
    have whole := close_renders frames formed left
    rw [written] at whole
    rw [readFrom_nil, List.append_nil]
    exact whole
  | cons t ts ih =>
    by_cases semicolon : t.text = ";"
    · have clause : Clause.Formed none (Clause.plain words.reverse t :: clauses).reverse := by
        rw [List.reverse_cons]
        exact formed.append (.plain free semicolon .nil)
      rw [readFrom_semicolon semicolon]
      have next := ih frames clause unmarked_nil
      simpa [tokensOf_append, tokensOf_singleton, tokens] using next
    by_cases opening : t.text = "\x7b"
    · have frame : Frame.Formed ⟨words.reverse, t, clauses⟩ := ⟨free, opening, formed⟩
      rw [readFrom_open opening]
      have nothing : Clause.Formed none ([] : List Clause).reverse := .nil
      have next := ih (List.forall_mem_cons.mpr ⟨frame, frames⟩) nothing unmarked_nil
      simpa [tokensBefore, tokensOf] using next
    by_cases closing : t.text = "\x7d"
    · obtain ⟨body, written⟩ := bodyBefore_formed formed free closing
      cases stack with
      | nil =>
        rw [readFrom_stray closing]
        exact ⟨closing, body, ts, by simp [tokensBefore, written]⟩
      | cons f stack =>
        obtain ⟨frame, others⟩ := List.forall_mem_cons.mp frames
        have clause : Clause.Formed none
            (Clause.block f.words f.opening (bodyBefore clauses words t).reverse t :: f.before).reverse := by
          rw [List.reverse_cons]
          exact frame.before.append (.block frame.words frame.opening closing body .nil)
        rw [readFrom_close closing]
        have next := ih others clause unmarked_nil
        simpa [tokensBefore, tokensOf_append, tokensOf_singleton, tokens, written] using next
    · have word : Unmarked (t :: words).reverse := by
        intro w hw
        rcases List.mem_cons.mp (List.mem_reverse.mp hw) with rfl | hw
        · simp [semicolon, opening, closing]
        · exact free w (List.mem_reverse.mpr hw)
      rw [readFrom_word semicolon opening closing]
      have next := ih frames formed word
      simpa using next

theorem read_renders (ts : List Token) : (read ts).Renders ts := by
  have outside : ∀ f ∈ ([] : List Frame), f.Formed := by simp
  have nothing : Clause.Formed none ([] : List Clause).reverse := .nil
  have whole := readFrom_renders outside nothing unmarked_nil ts
  simpa [read, tokensBefore, tokensOf] using whole

end Outline

end SchemaGen
