import SchemaGen.Proofs.Lexical
/-!
# Coverage

Scanning loses nothing: a text that scans is its tokens with gaps between them, each token stands where the text
before it ends, and a text that does not scan is covered up to a place where no word of the lexical grammar stands.
-/
namespace SchemaGen
open Lexical

namespace Position

/-- The position behind a text that begins at the start: the line is told by the newlines, the column by the
characters after the last of them. -/
def behind (text : List Char) : Position :=
  ⟨1 + text.count '\n', 1 + (text.reverse.takeWhile (· != '\n')).length⟩

theorem behind_concat (text : List Char) (c : Char) : behind (text ++ [c]) = (behind text).step c := by
  by_cases newline : c = '\n'
  · subst newline
    simp [behind, step, Nat.add_assoc]
  · simp [behind, step, newline, Nat.add_assoc]

theorem after_behind (before text : List Char) : (behind before).after text = behind (before ++ text) := by
  induction text generalizing before with
  | nil => rw [List.append_nil, after, List.foldl_nil]
  | cons c text ih =>
    rw [after, List.foldl_cons, ← behind_concat]
    exact (ih (before ++ [c])).trans (by rw [List.append_assoc, List.singleton_append])

end Position

namespace Tokens

/-- The text after `before` is cut into gaps and tokens up to `rest`. The tokens are those of the list, in their order,
each at the position behind all that stands before it. -/
inductive Cut : (before text rest : List Char) → List Token → Prop
  | stop {before rest : List Char} : Cut before rest rest []
  | gap {before w text rest : List Char} {ts : List Token} (gap : IsGap w text)
    (more : Cut (before ++ w) text rest ts) : Cut before (w ++ text) rest ts
  | token {before w text rest : List Char} {ts : List Token} (token : IsToken w text)
    (more : Cut (before ++ w) text rest ts) : Cut before (w ++ text) rest (⟨.ofList w, .behind before⟩ :: ts)

/-- What a scan of the text after `before` has to say about it. -/
def Explains (before text : List Char) : Except Uncovered Tokens → Prop
  | .ok ts => Cut before text [] ts.list ∧ ts.stop = .behind (before ++ text)
  | .error u => ∃ front rest ts, text = front ++ rest ∧ rest ≠ [] ∧ Cut before text rest ts ∧
    u.position = .behind (before ++ front) ∧ ∀ w more, rest = w ++ more → ¬ Matches w more

namespace Explains
variable {before w text : List Char} {result : Except Uncovered Tokens}

theorem gap (gap : IsGap w text) (h : Explains (before ++ w) text result) : Explains before (w ++ text) result := by
  cases result with
  | ok ts =>
    obtain ⟨cut, stop⟩ := h
    exact ⟨.gap gap cut, by rw [stop, List.append_assoc]⟩
  | error u =>
    obtain ⟨front, rest, ts, rfl, nonempty, cut, position, nothing⟩ := h
    exact ⟨w ++ front, rest, ts, by rw [List.append_assoc], nonempty, .gap gap cut,
      by rw [position, List.append_assoc], nothing⟩

theorem token (token : IsToken w text) (h : Explains (before ++ w) text result) :
    Explains before (w ++ text) (result.map (cons ⟨.ofList w, .behind before⟩)) := by
  cases result with
  | ok ts =>
    obtain ⟨cut, stop⟩ := h
    exact ⟨.token token cut, by rw [← List.append_assoc]; exact stop⟩
  | error u =>
    obtain ⟨front, rest, ts, rfl, nonempty, cut, position, nothing⟩ := h
    exact ⟨w ++ front, rest, _, by rw [List.append_assoc], nonempty, .token token cut,
      by rw [position, List.append_assoc], nothing⟩

end Explains

theorem explains_scanFrom (before text : List Char) : Explains before text (scanFrom (.behind before) text) := by
  induction length : text.length using Nat.strong_induction_on generalizing before text with
  | _ size ih =>
    cases text with
    | nil =>
      rw [scanFrom]
      exact ⟨.stop, by rw [List.append_nil]⟩
    | cons c cs =>
      cases found : lexeme? (c :: cs) with
      | none =>
        rw [scanFrom, found]
        exact ⟨[], c :: cs, [], rfl, by simp, .stop, by rw [List.append_nil], lexeme?_eq_none_iff.mp found⟩
      | some l =>
        obtain ⟨kind, n⟩ := l
        have whole : c :: cs = c :: cs.take n ++ cs.drop n := by simp
        have shorter : (cs.drop n).length < size := by
          rw [← length, List.length_drop, List.length_cons]
          omega
        have rest := ih _ shorter (before ++ c :: cs.take n) (cs.drop n) rfl
        rw [← Position.after_behind] at rest
        cases kind with
        | gap =>
          rw [scanFrom_gap found, whole]
          exact rest.gap (isGap_of_lexeme? found)
        | token =>
          rw [scanFrom_token found, whole]
          exact rest.token (isToken_of_lexeme? found)

theorem Cut.isToken {before text rest : List Char} {ts : List Token} (h : Cut before text rest ts) :
    ∀ t ∈ ts, ∃ more, IsToken t.text.toList more := by
  induction h with
  | stop => simp
  | gap _ _ ih => exact ih
  | @token before w text rest ts token _ ih =>
    exact List.forall_mem_cons.mpr ⟨⟨text, by rwa [String.toList_ofList]⟩, ih⟩

theorem isToken_of_scan {text : String} {ts : Tokens} (h : scan text = .ok ts) {t : Token} (ht : t ∈ ts.list) :
    ∃ more, IsToken t.text.toList more := by
  have explained : Explains [] text.toList (scan text) := explains_scanFrom [] text.toList
  rw [h] at explained
  exact explained.1.isToken t ht

/-- A text that scans is the texts of its tokens with blanks and comments from their beginning to their end around them;
no token but the one at the end is empty, and each has the line and column of its place. One that does not scan is cut
so up to the place that is reported, where nothing that the lexical grammar knows stands. -/
theorem scan_covers (text : String) :
    (∀ ts, scan text = .ok ts → Cut [] text.toList [] ts.list ∧ (∀ t ∈ ts.list, t.text ≠ "") ∧
      ts.withEnd = ts.list ++ [⟨"", .behind text.toList⟩]) ∧
    ∀ u, scan text = .error u → ∃ front rest ts, text.toList = front ++ rest ∧ rest ≠ [] ∧
      Cut [] text.toList rest ts ∧ u.position = .behind front ∧ ∀ w more, rest = w ++ more → ¬ Matches w more := by
  have explained : Explains [] text.toList (scan text) := explains_scanFrom [] text.toList
  constructor
  · intro ts scanned
    rw [scanned] at explained
    obtain ⟨cut, stop⟩ := explained
    refine ⟨cut, fun t ht empty => ?_, by rw [withEnd, stop, List.nil_append]⟩
    obtain ⟨_, token⟩ := cut.isToken t ht
    exact token.ne_nil (by rw [empty]; rfl)
  · intro u failed
    rw [failed] at explained
    exact explained

/-- A comment of two lines between tokens, and a letter that no token begins with. -/
theorem scan_covers_lines :
    Cut [] "x = /* é\n */ 1;".toList [] [⟨"x", ⟨1, 1⟩⟩, ⟨"=", ⟨1, 3⟩⟩, ⟨"1", ⟨2, 5⟩⟩, ⟨";", ⟨2, 6⟩⟩] ∧
    ∃ front rest ts, "x\n é".toList = front ++ rest ∧ rest ≠ [] ∧ Cut [] "x\n é".toList rest ts ∧
      ⟨2, 2⟩ = Position.behind front ∧ ∀ w more, rest = w ++ more → ¬ Matches w more := by
  have scanned : scan "x = /* é\n */ 1;" =
        .ok ⟨[⟨"x", ⟨1, 1⟩⟩, ⟨"=", ⟨1, 3⟩⟩, ⟨"1", ⟨2, 5⟩⟩, ⟨";", ⟨2, 6⟩⟩], ⟨2, 7⟩⟩ ∧
      scan "x\n é" = .error ⟨['é'], ⟨2, 2⟩⟩ := by decide +kernel
  exact ⟨((scan_covers _).1 _ scanned.1).1, (scan_covers _).2 _ scanned.2⟩

end Tokens

end SchemaGen
