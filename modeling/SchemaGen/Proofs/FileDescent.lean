import SchemaGen.Proofs.BlockDescent
/-!
# The descent through a file

Reading token by token and reading from an outline are the same: the same warnings in the same order, the same fault,
the same file.
-/
namespace SchemaGen
open Text Report Clause Descent

namespace Reading
variable {r : Reading} {schema : Schema} {c : Clause}

theorem clause_skipped (h : c.first.text ∈ [";", "option", "extend"]) : r.clause schema c = pure schema := by
  simp only [List.mem_cons, List.not_mem_nil, or_false] at h
  rcases h with h | h | h <;> rw [clause.eq_def, h] <;> rfl

theorem clause_block {words : List Token} {opening closing name : Token} {body : List Clause} {kind : BlockKind}
    (head : blockHead? [.message, .enum, .service] words = some (kind, name)) :
    r.clause schema (.block words opening body closing) =
      r.blockPart name body kind >>= fun part => pure (part.addTo schema) := by
  obtain ⟨known, _, keyword, rfl, word⟩ := blockHead?_words head
  rw [clause.eq_def]
  dsimp only [first, Clause.words, List.head?_cons, Option.getD_some]
  cases kind with
  | message => rw [word, blockPart_message, bind_bind, head]; rfl
  | oneof => simp at known
  | enum => rw [word, blockPart_enum, bind_bind, head]; rfl
  | service => rw [word, blockPart_service, bind_bind, head]; rfl

theorem clause_other (h : c.first.text ∉ [";", "option", "extend"])
    (other : ∀ words opening body closing, c = .block words opening body closing →
      blockHead? [.message, .enum, .service] words = none) :
    r.clause schema c = r.fileStatement schema c.first c.lead := by
  simp only [List.mem_cons, List.not_mem_nil, or_false, not_or] at h
  rw [clause.eq_def]
  split
  · exact absurd ‹_› h.1
  · exact absurd ‹_› h.2.1
  · exact absurd ‹_› h.2.2
  · cases c with
    | block words opening body closing =>
      dsimp only
      rw [other _ _ _ _ rfl]
    | _ => rfl

theorem expect_cons {what : Expected} {test : String → Bool} {ts rest : List Token} {t : Token}
    (h : (r.expect what test ts).result = .ok (t, rest)) : ts = t :: rest ∧ test t.text := by
  unfold expect at h
  split at h
  · cases h
  · split at h
    · rename_i passes
      cases h
      exact ⟨rfl, passes⟩
    · cases h

theorem expectText_cons {text : String} {ts rest : List Token} (h : (r.expectText text ts).result = .ok rest) :
    ∃ t, ts = t :: rest ∧ t.text = text := by
  obtain ⟨⟨t, rest⟩, found, h⟩ := bind_result_ok.mp h
  cases h
  obtain ⟨rfl, same⟩ := expect_cons found
  exact ⟨t, rfl, eq_of_beq same⟩

variable {lead : List Token} {schema' : Schema}

theorem version_semicolon (h : (r.version schema lead).result = .ok schema') : ∃ t ∈ lead, t.text = ";" := by
  obtain ⟨_, equals, h⟩ := bind_result_ok.mp h
  obtain ⟨⟨_, _⟩, literal, h⟩ := bind_result_ok.mp h
  obtain ⟨_, mark, _⟩ := bind_result_ok.mp h
  obtain ⟨_, words, _⟩ := expectText_cons equals
  obtain ⟨rfl, _⟩ := expect_cons literal
  obtain ⟨t, rfl, semicolon⟩ := expectText_cons mark
  exact ⟨t, List.mem_of_mem_drop (by rw [words]; simp), semicolon⟩

theorem package_semicolon (h : (r.package schema lead).result = .ok schema') : ∃ t ∈ lead, t.text = ";" := by
  unfold package at h
  split at h
  · obtain ⟨_, failed, _⟩ := bind_result_ok.mp h
    cases failed
  · obtain ⟨⟨_, _⟩, name, h⟩ := bind_result_ok.mp h
    obtain ⟨_, mark, _⟩ := bind_result_ok.mp h
    obtain ⟨words, _⟩ := expect_cons name
    obtain ⟨t, rfl, semicolon⟩ := expectText_cons mark
    exact ⟨t, List.mem_of_mem_drop (by rw [words]; simp), semicolon⟩

theorem importPath_semicolon (h : (r.importPath schema lead).result = .ok schema') : ∃ t ∈ lead, t.text = ";" := by
  obtain ⟨⟨_, _⟩, literal, h⟩ := bind_result_ok.mp h
  obtain ⟨_, mark, _⟩ := bind_result_ok.mp h
  obtain ⟨words, _⟩ := expect_cons literal
  obtain ⟨t, rfl, semicolon⟩ := expectText_cons mark
  refine ⟨t, ?_, semicolon⟩
  split at words
  · exact List.mem_of_mem_drop (List.mem_of_mem_drop (by rw [words]; simp))
  · exact List.mem_of_mem_drop (by rw [words]; simp)

theorem blockFault_result {kind : BlockKind} (h : (r.blockFault kind lead : Parsed Schema).result = .ok schema') :
    False := by
  unfold blockFault at h
  split at h
  · cases h
  · split at h
    · split at h <;> cases h
    · cases h

theorem fileStatement_semicolon {first : Token} (h : (r.fileStatement schema first lead).result = .ok schema') :
    ∃ t ∈ lead, t.text = ";" := by
  unfold fileStatement at h
  split at h
  · exact version_semicolon h
  · exact version_semicolon h
  · exact package_semicolon h
  · exact importPath_semicolon h
  iterate 3 exact (blockFault_result h).elim
  · cases h

theorem ending_unended {rest : Remainder} {t : Token} {more : List Token} (lead : rest.lead = t :: more)
    (other : ∀ words opening body left, rest = .block words opening body left →
      blockHead? [.message, .enum, .service] words = none) :
    r.ending schema (.ended rest) =
      if t.text ∈ ["option", "extend"] then openStatement t else r.fileStatement schema t (t :: more) := by
  cases rest with
  | nothing => cases lead
  | statement =>
    cases lead
    rw [ending]
    split
    · rw [if_pos (by simp [*])]
    · rw [if_pos (by simp [*])]
    · rename_i option extend
      rw [if_neg (by simpa using ⟨option, extend⟩)]
  | block words opening body left =>
    have first : words.head?.getD opening = t := by cases words <;> cases lead <;> rfl
    rw [Remainder.lead] at lead
    rw [ending.eq_def]
    dsimp only
    rw [first, other _ _ _ _ rfl, lead]
    split
    · rw [if_pos (by simp [*])]
    · rw [if_pos (by simp [*])]
    · rename_i option extend
      rw [if_neg (by simpa using ⟨option, extend⟩)]

theorem ending_block {words : List Token} {opening name : Token} {body : List Clause} {rest : Remainder}
    {kind : BlockKind} (head : blockHead? [.message, .enum, .service] words = some (kind, name)) :
    r.ending schema (.ended (.block words opening body rest)) =
      r.visit kind name body >>= fun _ => r.leftOpen kind name rest := by
  obtain ⟨known, _, keyword, rfl, word⟩ := blockHead?_words head
  rw [ending.eq_def]
  dsimp only [List.head?_cons, Option.getD_some]
  rw [head, word]
  cases kind <;> rfl

end Reading

namespace Descent
open Tokens
variable {strict : Bool} {ts : Tokens}

section expects
variable {α : Type} {i : Nat} {lead : List Token} {what : Expected} {test : String → Bool}

theorem expect_refused {t : Token} {xs : List Token} (ahead : ts.Ahead i (t :: xs)) (fails : test t.text = false) :
    expect ts what test i = Reading.faultAt t.position (.expected what (some t.text)) := by
  have text := ahead.text_ne
  simp [expect, ahead.tokenAt, fails, text]

theorem expect_finished (strict : Bool) (ahead : ts.Ahead i []) :
    expect ts what test i = Reading.faultAt (ts.reading strict).stop (.expected what none) := by
  simp [expect, ahead.index_eq, Tokens.reading, text_tokenAt_front]

/-- Before its mark, a statement is seen the same from the cursor and from its words. -/
theorem expect_word {f : Token × Nat → Parsed α} {g : Token × List Token → Parsed α} (leading : Leading ts i lead)
    (rejects : ∀ mark ∈ [";", "\x7b", "\x7d"], test mark = false)
    (same : ∀ t rest, lead = t :: rest → Leading ts (i + 1) rest → f (t, i + 1) = g (t, rest)) :
    expect ts what test i >>= f = (ts.reading strict).expect what test lead >>= g := by
  cases leading with
  | finished ahead =>
    rw [expect_finished strict ahead]
    rfl
  | @mark _ t _ ahead mark =>
    rw [expect_refused ahead (rejects _ mark), Reading.expect, rejects _ mark]
    rfl
  | @word _ t _ rest ahead free leading =>
    rw [Reading.expect]
    by_cases passes : test t.text = true
    · rw [expect_eq ahead passes, if_pos passes, Report.pure_bind, Report.pure_bind]
      exact same t rest rfl leading
    · rw [expect_refused ahead (Bool.eq_false_of_not_eq_true passes), if_neg passes]
      rfl

theorem expectText_word {word : String} {f : Nat → Parsed α} {g : List Token → Parsed α} (leading : Leading ts i lead)
    (free : word ∉ [";", "\x7b", "\x7d"])
    (same : ∀ t rest, lead = t :: rest → Leading ts (i + 1) rest → f (i + 1) = g rest) :
    expectText ts word i >>= f = (ts.reading strict).expectText word lead >>= g := by
  rw [expectText, Reading.expectText, bind_bind, bind_bind]
  refine expect_word leading (fun mark mem => ?_) fun t rest lead leading => ?_
  · rw [beq_eq_false_iff_ne]
    rintro rfl
    exact free mem
  · exact same t rest lead leading

theorem expectText_mark {f : Nat → Parsed α} {g : List Token → Parsed α} (leading : Leading ts i lead)
    (same : ∀ t, lead = [t] → t.text = ";" → f (i + 1) = g []) :
    expectText ts ";" i >>= f = (ts.reading strict).expectText ";" lead >>= g := by
  cases leading with
  | finished ahead =>
    rw [expectText, expect_finished strict ahead]
    rfl
  | @mark _ t _ ahead mark =>
    by_cases semicolon : t.text = ";"
    · rw [expectText_eq ahead semicolon, Reading.expectText, Reading.expect, semicolon]
      exact same t rfl semicolon
    · have fails : (t.text == ";") = false := beq_eq_false_iff_ne.mpr semicolon
      rw [expectText, expect_refused ahead fails, Reading.expectText, Reading.expect, fails]
      rfl
  | @word _ t _ rest ahead free leading =>
    have fails : (t.text == ";") = false := by
      rw [beq_eq_false_iff_ne]
      intro semicolon
      simp [semicolon] at free
    rw [expectText, expect_refused ahead fails, Reading.expectText, Reading.expect, fails]
    rfl

end expects

section statements
variable {i : Nat} {schema : Schema} {first : Token} {lead : List Token}

theorem version_agrees (leading : Leading ts (i + 1) lead) :
    version ts ⟨i, schema, [], none⟩ =
      (ts.reading strict).version schema (first :: lead) >>= fun schema =>
        pure ⟨i + (first :: lead).length, schema, [], none⟩ := by
  rw [version, Reading.version, bind_bind]
  refine expectText_word leading (by decide) fun t rest whole leading => ?_
  rw [bind_bind]
  refine expect_word leading (by decide) fun literal rest whole leading => ?_
  dsimp only
  rw [bind_bind]
  refine expectText_mark leading fun mark last _ => ?_
  subst_vars
  rfl

theorem package_agrees (here : ts.tokenAt i = first) (leading : Leading ts (i + 1) lead) :
    package ts ⟨i, schema, [], none⟩ =
      (ts.reading strict).package schema (first :: lead) >>= fun schema =>
        pure ⟨i + (first :: lead).length, schema, [], none⟩ := by
  rw [package, Reading.package]
  by_cases second : schema.package.isSome = true
  · rw [if_pos second, if_pos second, here]
    rfl
  · rw [if_neg second, if_neg second]
    dsimp only
    rw [bind_bind]
    refine expect_word leading (by decide) fun name rest whole leading => ?_
    dsimp only
    rw [bind_bind]
    refine expectText_mark leading fun mark last _ => ?_
    subst_vars
    rfl

theorem importPath_agrees (leading : Leading ts (i + 1) lead) :
    importPath ts ⟨i, schema, [], none⟩ =
      (ts.reading strict).importPath schema (first :: lead) >>= fun schema =>
        pure ⟨i + (first :: lead).length, schema, [], none⟩ := by
  have word (text : String) (some : text ≠ "") :
      lead.head?.any (·.text == text) = ((ts.tokenAt (i + 1)).text == text) := by
    cases lead with
    | nil => simp [leading.text_nil, some.symm]
    | cons t rest => rw [leading.head.1]; rfl
  have words : (first :: lead).drop 1 = lead := rfl
  rw [importPath, Reading.importPath]
  simp only [words]
  rw [word "public" (by decide), word "weak" (by decide), bind_bind]
  -- the words from the path on, and where they begin
  obtain ⟨j, path, starts, rest, behind, length⟩ : ∃ j path,
      (if ((ts.tokenAt (i + 1)).text == "public" || (ts.tokenAt (i + 1)).text == "weak") = true then i + 2
        else i + 1) = j ∧
      (if ((ts.tokenAt (i + 1)).text == "public" || (ts.tokenAt (i + 1)).text == "weak") = true then lead.drop 1
        else lead) = path ∧ Leading ts j path ∧ j + path.length = i + (first :: lead).length := by
    split
    · rename_i aside
      have free : (ts.tokenAt (i + 1)).text ≠ "" ∧ (ts.tokenAt (i + 1)).text ∉ [";", "\x7b", "\x7d"] := by
        rcases Bool.or_eq_true_iff.mp aside with aside | aside <;> rw [eq_of_beq aside] <;> decide
      obtain ⟨rest, rfl, behind⟩ := leading.word_at free.1 free.2
      exact ⟨i + 2, rest, rfl, rfl, behind, by simp only [List.length_cons]; omega⟩
    · exact ⟨i + 1, lead, rfl, rfl, leading, by simp only [List.length_cons]; omega⟩
  rw [starts, rest, ← length]
  refine expect_word behind (by decide) fun literal rest whole leading => ?_
  dsimp only
  rw [bind_bind]
  refine expectText_mark leading fun mark last _ => ?_
  subst last whole
  rfl

theorem expectText_refused {text : String} {t : Token} {xs : List Token} (ahead : ts.Ahead i (t :: xs))
    (fails : t.text ≠ text) :
    expectText ts text i = Reading.faultAt t.position (.expected (.text text) (some t.text)) := by
  have fails : (t.text == text) = false := beq_eq_false_iff_ne.mpr fails
  rw [expectText, expect_refused ahead fails]
  rfl

theorem enter_agrees {kind : BlockKind} (leading : Leading ts i (first :: lead)) (keyword : first.text = kind.keyword)
    (other : ∀ name opening, lead = [name, opening] → opening.text = "\x7b" → isIdentifier name.text = false)
    {k : Schema → State} :
    enter ts ⟨i, schema, [], none⟩ kind =
      (ts.reading strict).blockFault kind (first :: lead) >>= fun schema => pure (k schema) := by
  have free : first.text ∉ [";", "\x7b", "\x7d"] := by
    rw [keyword]
    cases kind <;> decide
  have words : (first :: lead).drop 1 = lead := rfl
  cases leading with
  | mark _ mark => exact absurd mark free
  | word ahead _ leading =>
    rw [enter, expectText_eq ahead keyword, Report.pure_bind, Reading.blockFault, words]
    cases leading with
    | finished nothing =>
      rw [expect_finished strict nothing]
      rfl
    | @mark _ t _ ahead mark =>
      have fails : isIdentifier t.text = false :=
        have rejects : ∀ mark ∈ [";", "\x7b", "\x7d"], isIdentifier mark = false := by decide
        rejects t.text mark
      rw [expect_refused ahead fails]
      dsimp only
      rw [fails]
      rfl
    | @word _ t _ rest ahead _ leading =>
      by_cases identifier : isIdentifier t.text = true
      · rw [expect_eq ahead identifier, Report.pure_bind]
        dsimp only
        rw [if_pos identifier]
        cases leading with
        | finished nothing =>
          rw [expectText, expect_finished strict nothing]
          rfl
        | @mark _ u _ ahead mark =>
          have fails : u.text ≠ "\x7b" := by
            intro opens
            rw [other t u rfl opens] at identifier
            cases identifier
          rw [expectText_refused ahead fails]
          rfl
        | @word _ u _ rest ahead free leading =>
          have fails : u.text ≠ "\x7b" := by
            intro opens
            simp [opens] at free
          rw [expectText_refused ahead fails]
          rfl
      · rw [expect_refused ahead (Bool.eq_false_of_not_eq_true identifier)]
        dsimp only
        rw [if_neg identifier]
        rfl

/-- Outside of blocks, a statement that is not passed over is read the same from the cursor and from its words. -/
theorem fileStep_agrees (strict : Bool) (leading : Leading ts i (first :: lead))
    (kept : first.text ∉ [";", "option", "extend"])
    (other : ∀ name opening, lead = [name, opening] → opening.text = "\x7b" →
      blockHead? [.message, .enum, .service] [first, name] = none) :
    fileStep ts ⟨i, schema, [], none⟩ =
      (ts.reading strict).fileStatement schema first (first :: lead) >>= fun schema =>
        pure ⟨i + (first :: lead).length, schema, [], none⟩ := by
  simp only [List.mem_cons, List.not_mem_nil, or_false, not_or] at kept
  have here := leading.head.1
  have text := leading.head.2
  have block {kind : BlockKind} (keyword : first.text = kind.keyword) (known : kind ∈ [.message, .enum, .service]) :
      enter ts ⟨i, schema, [], none⟩ kind =
        (ts.reading strict).blockFault kind (first :: lead) >>= fun schema =>
          pure ⟨i + (first :: lead).length, schema, [], none⟩ := by
    refine enter_agrees leading keyword fun name opening whole opens => ?_
    have none := other name opening whole opens
    have found : [BlockKind.message, .enum, .service].find? (·.keyword == first.text) = some kind := by
      rw [keyword]
      revert known
      cases kind <;> decide
    refine Bool.eq_false_of_not_eq_true fun identifier => ?_
    rw [blockHead?_eq_of_find? found identifier] at none
    cases none
  have rest {word : String} (same : first.text = word) (free : word ∉ [";", "\x7b", "\x7d"]) :
      Leading ts (i + 1) lead := by
    rw [← same] at free
    cases leading with
    | mark _ mark => exact absurd mark free
    | word _ _ rest => exact rest
  rw [fileStep]
  dsimp only
  rw [here]
  split
  · exact absurd ‹_› kept.1
  · rename_i word
    rw [Reading.fileStatement, word]
    exact version_agrees (rest word (by decide))
  · rename_i word
    rw [Reading.fileStatement, word]
    exact version_agrees (rest word (by decide))
  · rename_i word
    rw [Reading.fileStatement, word]
    exact package_agrees here (rest word (by decide))
  · rename_i word
    rw [Reading.fileStatement, word]
    exact importPath_agrees (rest word (by decide))
  · exact absurd ‹_› kept.2.1
  · exact absurd ‹_› kept.2.2
  · rename_i word
    rw [Reading.fileStatement, word]
    exact block word (by decide)
  · rename_i word
    rw [Reading.fileStatement, word]
    exact block word (by decide)
  · rename_i word
    rw [Reading.fileStatement, word]
    exact block word (by decide)
  · rw [Reading.fileStatement]
    split
    iterate 7 contradiction
    rfl

theorem step_file (text : (ts.tokenAt i).text ≠ "") :
    step strict ts ⟨i, schema, [], none⟩ = do return .inl (← fileStep ts ⟨i, schema, [], none⟩) :=
  if_neg text

theorem leads_fileStatement (leading : Leading ts i (first :: lead)) (kept : first.text ∉ [";", "option", "extend"])
    (other : ∀ name opening, lead = [name, opening] → opening.text = "\x7b" →
      blockHead? [.message, .enum, .service] [first, name] = none) :
    Leads strict ts ⟨i, schema, [], none⟩ ((ts.reading strict).fileStatement schema first (first :: lead))
      fun schema => .inl ⟨i + (first :: lead).length, schema, [], none⟩ := by
  obtain ⟨rfl, text⟩ := leading.head
  refine .of_step ?_
  rw [step_file text, fileStep_agrees strict leading kept other, bind_bind]
  rfl

theorem goes_pass_file (text : (ts.tokenAt i).text ∈ ["option", "extend"]) :
    Goes strict ts ⟨i, schema, [], none⟩ ⟨i, schema, [], some ⟨i, false, 0⟩⟩ := by
  simp only [List.mem_cons, List.not_mem_nil, or_false] at text
  apply Goes.of_step
  rcases text with text | text <;> rw [step_file (by simp [text]), fileStep, text] <;> rfl

theorem goes_enter_file {kind : BlockKind} {keyword name opening : Token} {xs : List Token}
    (ahead : ts.Ahead i (keyword :: name :: opening :: xs)) (word : keyword.text = kind.keyword)
    (identifier : isIdentifier name.text) (opens : opening.text = "\x7b") (known : kind ∈ [.message, .enum, .service]) :
    Goes strict ts ⟨i, schema, [], none⟩ ⟨i + 3, schema, [⟨i, kind, name, []⟩], none⟩ := by
  apply Goes.of_step
  have entered : enter ts ⟨i, schema, [], none⟩ kind = pure ⟨i + 3, schema, [⟨i, kind, name, []⟩], none⟩ :=
    enter_eq ahead word identifier opens
  rw [step_file (by rw [ahead.tokenAt]; exact ahead.text_ne), fileStep]
  dsimp only
  rw [ahead.tokenAt, word]
  cases kind with
  | message => rw [BlockKind.keyword, entered]; rfl
  | oneof => simp at known
  | enum => rw [BlockKind.keyword, entered]; rfl
  | service => rw [BlockKind.keyword, entered]; rfl

end statements

section clauses
variable {i : Nat} {schema : Schema} {next : Option Token} {c : Clause} {cs : List Clause} {xs : List Token}

theorem leads_file_block {words : List Token} {opening closing name : Token} {body : List Clause} {kind : BlockKind}
    (head : blockHead? [.message, .enum, .service] words = some (kind, name)) (opens : opening.text = "\x7b")
    (closes : closing.text = "\x7d") (inside : Formed (some closing) body)
    (ahead : ts.Ahead i ((block words opening body closing).tokens ++ xs)) :
    Leads strict ts ⟨i, schema, [], none⟩ ((ts.reading strict).clause schema (.block words opening body closing))
      fun schema => .inl ⟨i + (block words opening body closing).tokens.length, schema, [], none⟩ := by
  obtain ⟨known, identifier, keyword, rfl, word⟩ := blockHead?_words head
  rw [Reading.clause_block head, Reading.blockPart, bind_bind]
  have length := length_append_block i [keyword, name] opening closing body []
  rw [List.append_nil] at length
  rw [length]
  simp only [tokens, List.cons_append, List.nil_append, List.append_assoc] at ahead
  have behind : ts.Ahead (i + 3) (tokensOf body ++ ((some closing).toList ++ xs)) := ahead.tail.tail.tail
  refine (goes_enter_file ahead word identifier opens known).leads
    ((gathers_of_formed inside behind).bind fun more => ?_)
  exact (Leads.of_map (leads_leave behind.drop closes)).map fun part => rfl

theorem tokens_eq_lead (formed : Formed next (c :: cs)) (ended : ∃ t ∈ c.lead, t.text = ";") : c.tokens = c.lead := by
  obtain ⟨t, mem, semicolon⟩ := ended
  have unmarked : Unmarked c.words := by cases formed <;> assumption
  have last : t = c.finish := by
    rcases List.mem_append.mp mem with word | last
    · have free := unmarked t word
      simp [semicolon] at free
    · exact List.mem_singleton.mp last
  rw [last] at semicolon
  cases formed with
  | plain => rfl
  | block _ opens => simp [finish, opens] at semicolon
  | bare _ _ closes => simp [finish, closes] at semicolon

theorem leads_file_other (formed : Formed next (c :: cs))
    (ahead : ts.Ahead i (tokensOf (c :: cs) ++ (next.toList ++ xs)))
    (other : ∀ words opening body closing, c = .block words opening body closing →
      blockHead? [.message, .enum, .service] words = none) :
    Leads strict ts ⟨i, schema, [], none⟩ ((ts.reading strict).clause schema c)
      fun schema => .inl ⟨i + c.tokens.length, schema, [], none⟩ := by
  have leading := leading_lead formed ahead
  obtain ⟨rest, lead⟩ : ∃ rest, c.lead = c.first :: rest := words_eq_cons c.words c.finish
  rw [lead] at leading
  obtain ⟨here, text⟩ := leading.head
  by_cases semicolon : c.first.text = ";"
  · obtain ⟨mark, rfl⟩ := (first_of_formed formed).2 semicolon
    rw [Reading.clause_skipped (by simp [semicolon])]
    refine Goes.leads_pure (.of_step ?_) schema rfl
    rw [step_file (by rw [here]; exact text), fileStep]
    dsimp only
    rw [here, semicolon]
    rfl
  by_cases skipped : c.first.text ∈ ["option", "extend"]
  · rw [Reading.clause_skipped (List.mem_cons_of_mem _ skipped)]
    have begun : Goes strict ts ⟨i, schema, [], none⟩ ⟨i, schema, [], some ⟨i, false, 0⟩⟩ :=
      goes_pass_file (by rw [here]; exact skipped)
    obtain ⟨n, passed⟩ := begun.leads (leads_clause formed ahead)
    exact ⟨n, passed⟩
  · have kept : c.first.text ∉ [";", "option", "extend"] := by
      simpa [semicolon] using skipped
    rw [Reading.clause_other kept other, lead]
    have plain : ∀ name opening, rest = [name, opening] → opening.text = "\x7b" →
        blockHead? [.message, .enum, .service] [c.first, name] = none := by
      intro name opening whole opens
      rw [whole] at lead
      obtain ⟨_, _, block⟩ := block_of_lead formed lead opens
      exact other _ _ _ _ block
    -- what is accepted ends with its semicolon, so that its tokens are those that were looked at
    refine (leads_fileStatement leading kept plain).congr fun schema' read => ?_
    have ended := Reading.fileStatement_semicolon read
    rw [← lead] at ended ⊢
    rw [tokens_eq_lead formed ended]

/-- Outside of blocks, a clause is read to its end and gives what it gives. -/
theorem leads_file_clause (formed : Formed next (c :: cs))
    (ahead : ts.Ahead i (tokensOf (c :: cs) ++ (next.toList ++ xs))) :
    Leads strict ts ⟨i, schema, [], none⟩ ((ts.reading strict).clause schema c)
      fun schema => .inl ⟨i + c.tokens.length, schema, [], none⟩ := by
  cases formed with
  | plain free semicolon rest => exact leads_file_other (.plain free semicolon rest) ahead (by simp)
  | @block _ words _ _ _ _ free opens closes inside rest =>
    cases head : blockHead? [.message, .enum, .service] words with
    | none => exact leads_file_other (.block free opens closes inside rest) ahead (by rintro _ _ _ _ ⟨⟩; exact head)
    | some found =>
      rw [tokensOf, List.append_assoc] at ahead
      exact leads_file_block head opens closes inside ahead
  | bare free nonempty closes => exact leads_file_other (.bare free nonempty closes) ahead (by simp)

theorem leads_file_clauses (formed : Formed next cs) (ahead : ts.Ahead i (tokensOf cs ++ (next.toList ++ xs))) :
    Leads strict ts ⟨i, schema, [], none⟩ ((ts.reading strict).clauses schema cs)
      fun schema => .inl ⟨i + (tokensOf cs).length, schema, [], none⟩ := by
  induction cs generalizing i schema with
  | nil => exact Goes.refl.leads_pure schema rfl
  | cons c cs ih =>
    have rest := ahead
    rw [tokensOf, List.append_assoc] at rest
    rw [Reading.clauses, tokensOf, List.length_append, ← Nat.add_assoc]
    exact (leads_file_clause formed ahead).bind fun schema => ih formed.tail rest.drop

end clauses

section endings
variable {i : Nat} {schema : Schema}

theorem leads_stray {closing : Token} {xs : List Token} (ahead : ts.Ahead i (closing :: xs))
    (closes : closing.text = "\x7d") :
    Leads strict ts ⟨i, schema, [], none⟩ ((ts.reading strict).ending schema (.stray closing)) .inr := by
  obtain ⟨text, position⟩ := closing
  cases closes
  refine .of_fault ?_ rfl
  rw [step_file (by rw [ahead.tokenAt]; exact ahead.text_ne), fileStep, ahead.tokenAt]
  rfl

theorem leads_file_unended {rest : Remainder} (formed : rest.Formed) (ahead : ts.Ahead i rest.tokens) {t : Token}
    {more : List Token} (lead : rest.lead = t :: more)
    (other : ∀ words opening body left, rest = .block words opening body left →
      blockHead? [.message, .enum, .service] words = none) :
    Leads strict ts ⟨i, schema, [], none⟩
      (if t.text ∈ ["option", "extend"] then Reading.openStatement t
        else (ts.reading strict).fileStatement schema t (t :: more)) .inr := by
  have leading := leading_remainder formed ahead
  have word := first_of_remainder formed lead
  rw [lead] at leading
  obtain ⟨rfl, text⟩ := leading.head
  split
  · rename_i skipped
    exact (goes_pass_file skipped).leads (leads_openStatement formed ahead)
  · rename_i kept
    have kept : (ts.tokenAt i).text ∉ [";", "option", "extend"] := by simp_all
    refine (leads_fileStatement leading kept ?_).congr fun schema' read => ?_
    · intro name opening whole opens
      rw [whole] at lead
      obtain ⟨body, left, whole⟩ := Remainder.block_of_lead formed lead opens
      exact other _ _ _ _ whole
    · obtain ⟨t, mem, semicolon⟩ := Reading.fileStatement_semicolon read
      rw [← lead] at mem
      exact absurd semicolon (Remainder.semicolon_notMem_lead formed t mem)

theorem leads_ended {rest : Remainder} (formed : rest.Formed) (ahead : ts.Ahead i rest.tokens) :
    Leads strict ts ⟨i, schema, [], none⟩ ((ts.reading strict).ending schema (.ended rest)) .inr := by
  cases rest with
  | nothing =>
    refine .of_step ?_
    exact if_pos (Ahead.text_nil ahead)
  | statement first more =>
    rw [Reading.ending_unended rfl (by simp)]
    exact leads_file_unended formed ahead rfl (by simp)
  | block words opening body rest =>
    cases head : blockHead? [.message, .enum, .service] words with
    | none =>
      have other : ∀ words' opening' body' left, Remainder.block words opening body rest =
          .block words' opening' body' left → blockHead? [.message, .enum, .service] words' = none := by
        rintro _ _ _ _ ⟨⟩
        exact head
      obtain ⟨more, lead⟩ : ∃ more, (Remainder.block words opening body rest).lead = words.head?.getD opening :: more :=
        words_eq_cons words opening
      rw [Reading.ending_unended lead other]
      exact leads_file_unended formed ahead lead other
    | some found =>
      obtain ⟨free, opens, inside, left⟩ := formed
      rw [Reading.ending_block head, Reading.visit_eq, bind_bind]
      obtain ⟨known, identifier, keyword, rfl, word⟩ := blockHead?_words head
      have behind : ts.Ahead (i + 3) (tokensOf body ++ (Option.toList none ++ rest.tokens)) := ahead.tail.tail.tail
      exact (goes_enter_file ahead word identifier opens known).leads
        ((gathers_of_formed inside behind).bind fun more => leads_leftOpen left behind.drop)

end endings

/-- Some number of steps reads a file to its end, as the reader does. -/
theorem leads_file : Leads strict ts start ((ts.reading strict).file ts.front) .inr := by
  have rendered := Outline.read_renders ts.front
  have front := ts.ahead_start
  rw [Reading.file]
  cases ending : (Outline.read ts.front).ending with
  | stray closing =>
    rw [Outline.Renders, ending] at rendered
    obtain ⟨closes, formed, unread, tokens⟩ := rendered
    rw [tokens] at front
    exact (leads_file_clauses formed front).bind fun schema => leads_stray front.drop closes
  | ended rest =>
    rw [Outline.Renders, ending] at rendered
    obtain ⟨formed, left, tokens⟩ := rendered
    rw [tokens] at front
    exact (leads_file_clauses formed front).bind fun schema => leads_ended left front.drop

end Descent

end SchemaGen
