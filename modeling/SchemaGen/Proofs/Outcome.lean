import SchemaGen.Report
import Mathlib.Data.List.Forall2
/-!
# Outcomes of composed work

A composition succeeds exactly when its parts do, one after the other. The warnings on the way play no part, so
every statement is about the result alone.
-/
namespace SchemaGen
variable {ω ω' ε ε' α β σ : Type}

namespace Report

@[simp] theorem pure_result (a : α) : (pure a : Report ω ε α).result = .ok a := rfl

@[simp] theorem fail_result (e : ε) : (fail e : Report ω ε α).result = .error e := rfl

@[simp] theorem warn_result (w : ω) : (warn w : Report ω ε Unit).result = .ok () := rfl

@[simp] theorem ofExcept_result (r : Except ε α) : (ofExcept r : Report ω ε α).result = r := rfl

theorem bind_result_ok {r : Report ω ε α} {next : α → Report ω ε β} {b : β} :
    (r >>= next).result = .ok b ↔ ∃ a, r.result = .ok a ∧ (next a).result = .ok b := by
  change (r.andThen next).result = .ok b ↔ _
  unfold andThen
  cases h : r.result with
  | error e => simp
  | ok a => simp

theorem bind_result_of_ok {r : Report ω ε α} {a : α} (h : r.result = .ok a) (next : α → Report ω ε β) :
    (r >>= next).result = (next a).result := by
  change (r.andThen next).result = _
  rw [andThen, h]

theorem bind_result_of_error {r : Report ω ε α} {e : ε} (h : r.result = .error e) (next : α → Report ω ε β) :
    (r >>= next).result = .error e := by
  change (r.andThen next).result = _
  rw [andThen, h]

theorem bind_result_error {r : Report ω ε α} {next : α → Report ω ε β} {e : ε} :
    (r >>= next).result = .error e ↔ r.result = .error e ∨ ∃ a, r.result = .ok a ∧ (next a).result = .error e := by
  cases h : r.result with
  | error first =>
    rw [bind_result_of_error h]
    simp
  | ok a =>
    rw [bind_result_of_ok h]
    simp

theorem foldlM_result_error {step : σ → α → Report ω ε σ} {as : List α} {s : σ} {e : ε}
    (h : (as.foldlM step s).result = .error e) : ∃ a ∈ as, ∃ s, (step s a).result = .error e := by
  induction as generalizing s with
  | nil => cases h
  | cons a as ih =>
    rw [List.foldlM_cons] at h
    rcases bind_result_error.mp h with here | ⟨mid, _, later⟩
    · exact ⟨a, List.mem_cons_self, s, here⟩
    · obtain ⟨b, hb, rest⟩ := ih later
      exact ⟨b, List.mem_cons_of_mem _ hb, rest⟩

/-- What every step keeps, a whole fold keeps. The property sees the elements that are done. -/
theorem foldlM_result_ok {step : σ → α → Report ω ε σ} {P : List α → σ → Prop}
    (keeps : ∀ done a s s', P done s → (step s a).result = .ok s' → P (done ++ [a]) s')
    {done as : List α} {s s' : σ} (start : P done s) (h : (as.foldlM step s).result = .ok s') :
    P (done ++ as) s' := by
  induction as generalizing done s with
  | nil =>
    rw [List.foldlM_nil, pure_result] at h
    cases h
    simpa using start
  | cons a as ih =>
    rw [List.foldlM_cons] at h
    obtain ⟨mid, first, rest⟩ := bind_result_ok.mp h
    have next := ih (keeps done a s mid start first) rest
    simpa using next

theorem foldlM_result_exists {step : σ → α → Report ω ε σ} {P : List α → σ → Prop}
    (keeps : ∀ done a s s', P done s → (step s a).result = .ok s' → P (done ++ [a]) s')
    {done as : List α} {s : σ} (start : P done s)
    (able : ∀ before a after, as = before ++ a :: after → ∀ s, P (done ++ before) s →
      ∃ s', (step s a).result = .ok s') :
    ∃ s', (as.foldlM step s).result = .ok s' := by
  induction as generalizing done s with
  | nil => exact ⟨s, rfl⟩
  | cons a as ih =>
    obtain ⟨mid, first⟩ := able [] a as rfl s (by simpa using start)
    have rest : ∃ s', (as.foldlM step mid).result = .ok s' := by
      apply ih (keeps done a s mid start first)
      intro before b after split s hs
      apply able (a :: before) b after (by rw [split, List.cons_append]) s
      simpa using hs
    obtain ⟨last, hlast⟩ := rest
    exact ⟨last, by rw [List.foldlM_cons]; exact bind_result_ok.mpr ⟨mid, first, hlast⟩⟩

theorem gather_result_mem {f : α → Report ω ε (List β)} {as : List α} {bs : List β}
    (h : (gather f as).result = .ok bs) {b : β} (hb : b ∈ bs) :
    ∃ a ∈ as, ∃ found, (f a).result = .ok found ∧ b ∈ found := by
  induction as generalizing bs with
  | nil =>
    rw [gather, pure_result] at h
    cases h
    simp at hb
  | cons a as ih =>
    obtain ⟨head, hhead, h⟩ := bind_result_ok.mp h
    obtain ⟨tail, htail, h⟩ := bind_result_ok.mp h
    cases h
    rcases List.mem_append.mp hb with hb | hb
    · exact ⟨a, by simp, head, hhead, hb⟩
    · obtain ⟨a', ha', found, hfound, hb⟩ := ih htail hb
      exact ⟨a', by simp [ha'], found, hfound, hb⟩

theorem gather_result_each {f : α → Report ω ε (List β)} {as : List α} {bs : List β}
    (h : (gather f as).result = .ok bs) {a : α} (ha : a ∈ as) : ∃ found, (f a).result = .ok found := by
  induction as generalizing bs with
  | nil => cases ha
  | cons a' as ih =>
    obtain ⟨head, hhead, h⟩ := bind_result_ok.mp h
    obtain ⟨tail, htail, _⟩ := bind_result_ok.mp h
    rcases List.mem_cons.mp ha with rfl | ha
    · exact ⟨head, hhead⟩
    · exact ih htail ha

end Report

theorem except_bind_ok {r : Except ε α} {next : α → Except ε β} {b : β} :
    (r >>= next) = .ok b ↔ ∃ a, r = .ok a ∧ next a = .ok b := by
  cases r with
  | error e => simp [bind, Except.bind]
  | ok a => simp [bind, Except.bind]

theorem except_bind_error {r : Except ε α} {next : α → Except ε β} {e : ε} :
    (r >>= next) = .error e ↔ r = .error e ∨ ∃ a, r = .ok a ∧ next a = .error e := by
  cases r with
  | error first => simp [bind, Except.bind]
  | ok a => simp [bind, Except.bind]

theorem except_map_ok {r : Except ε α} {g : α → β} {b : β} : r.map g = .ok b ↔ ∃ a, r = .ok a ∧ b = g a := by
  cases r with
  | error e => simp [Except.map]
  | ok a => simp [Except.map, eq_comm]

theorem toOption_eq_some {r : Except ε α} {a : α} : r.toOption = some a ↔ r = .ok a := by
  cases r with
  | error e => simp [Except.toOption]
  | ok b => simp [Except.toOption]

theorem toOption_map_eq_some {r : Except ε α} {g : α → β} {b : β} :
    r.toOption.map g = some b ↔ ∃ a, r = .ok a ∧ g a = b := by
  simp only [Option.map_eq_some_iff, toOption_eq_some]

theorem mapM_eq_ok {f : α → Except ε β} {as : List α} {bs : List β} :
    as.mapM f = .ok bs ↔ List.Forall₂ (fun a b => f a = .ok b) as bs := by
  induction as generalizing bs with
  | nil =>
    rw [List.mapM_nil, List.forall₂_nil_left_iff]
    constructor
    · intro h
      cases h
      rfl
    · rintro rfl
      rfl
  | cons a as ih =>
    rw [List.mapM_cons, except_bind_ok]
    constructor
    · rintro ⟨b, hb, h⟩
      obtain ⟨bs', htail, h⟩ := except_bind_ok.mp h
      cases h
      exact .cons hb (ih.mp htail)
    · intro h
      cases h with
      | cons hb htail => exact ⟨_, hb, except_bind_ok.mpr ⟨_, ih.mpr htail, rfl⟩⟩

theorem exists_of_mapM_error {f : α → Except ε β} {as : List α} {e : ε} (h : as.mapM f = .error e) :
    ∃ a ∈ as, f a = .error e := by
  induction as with
  | nil => cases h
  | cons a as ih =>
    rw [List.mapM_cons] at h
    rcases except_bind_error.mp h with here | ⟨b, _, later⟩
    · exact ⟨a, List.mem_cons_self, here⟩
    · rcases except_bind_error.mp later with rest | ⟨bs, _, impossible⟩
      · obtain ⟨b, hb, failed⟩ := ih rest
        exact ⟨b, List.mem_cons_of_mem _ hb, failed⟩
      · cases impossible

theorem exists_of_mem_mapM {f : α → Except ε β} {as : List α} {bs : List β} (h : as.mapM f = .ok bs) {b : β}
    (hb : b ∈ bs) : ∃ a ∈ as, f a = .ok b := by
  have aligned := mapM_eq_ok.mp h
  clear h
  induction aligned with
  | nil => cases hb
  | cons first rest ih =>
    rcases List.mem_cons.mp hb with rfl | hb
    · exact ⟨_, List.mem_cons_self, first⟩
    · obtain ⟨a, ha, value⟩ := ih hb
      exact ⟨a, List.mem_cons_of_mem _ ha, value⟩

theorem map_eq_of_mapM {f : α → Except ε β} {g : α → σ} {k : β → σ} (each : ∀ a b, f a = .ok b → k b = g a)
    {as : List α} {bs : List β} (h : as.mapM f = .ok bs) : bs.map k = as.map g := by
  have aligned := mapM_eq_ok.mp h
  clear h
  induction aligned with
  | nil => rfl
  | cons first rest ih => rw [List.map_cons, List.map_cons, each _ _ first, ih]

theorem mapM_eq_ok_map {f : α → Except ε β} {P : α → Prop} {g : α → β}
    (each : ∀ a b, f a = .ok b ↔ P a ∧ b = g a) {as : List α} {bs : List β} :
    as.mapM f = .ok bs ↔ (∀ a ∈ as, P a) ∧ bs = as.map g := by
  rw [mapM_eq_ok]
  induction as generalizing bs with
  | nil => simp
  | cons a as ih =>
    cases bs with
    | nil => simp
    | cons b bs =>
      rw [List.forall₂_cons, each, ih, List.forall_mem_cons, List.map_cons, List.cons.injEq]
      tauto

theorem mapM_exists_ok {f : α → Except ε β} {as : List α} (h : ∀ a ∈ as, ∃ b, f a = .ok b) :
    ∃ bs, as.mapM f = .ok bs := by
  induction as with
  | nil => exact ⟨[], rfl⟩
  | cons a as ih =>
    obtain ⟨b, hb⟩ := h a (by simp)
    obtain ⟨bs, hbs⟩ := ih fun a ha => h a (by simp [ha])
    exact ⟨b :: bs, mapM_eq_ok.mpr (.cons hb (mapM_eq_ok.mp hbs))⟩

end SchemaGen
