import Mathlib.Data.List.Basic

/-!
# Codes that can be read back

A code writes values as lists of symbols. `Reads` says that the code of one value is no
other value's code, even with something behind it: what follows only has to be admissible.
This is what survives when codes are put together. `Reads.terminated` is about a sequence
of codes that ends with a symbol of its own, and `Reads.sequence` about one with separators.
-/

variable {α β σ : Type} {ok : α → Prop} {follow : List σ → Prop} {code : α → List σ}

/-- The code of `a` is read back as `a`, from any text that starts with the code of some value. -/
def Reads (ok : α → Prop) (follow : List σ → Prop) (code : α → List σ) (a : α) : Prop :=
  ∀ b, ok b → ∀ s t, follow s → follow t → code a ++ s = code b ++ t → a = b ∧ s = t

/-- Two words of certain symbols, each before a text that starts with no such symbol. -/
theorem append_inj_of_symbols {symbol : σ → Prop} {xs ys s t : List σ} (hx : ∀ c ∈ xs, symbol c)
    (hy : ∀ c ∈ ys, symbol c) (hs : ∀ c rest, s = c :: rest → ¬ symbol c)
    (ht : ∀ c rest, t = c :: rest → ¬ symbol c) (same : xs ++ s = ys ++ t) : xs = ys ∧ s = t := by
  induction xs generalizing ys with
  | nil =>
      cases ys with
      | nil => exact ⟨rfl, same⟩
      | cons y ys => exact (hs y (ys ++ t) same (hy y (by simp))).elim
  | cons x xs ih =>
      cases ys with
      | nil => exact (ht x (xs ++ s) same.symm (hx x (by simp))).elim
      | cons y ys =>
          obtain ⟨rfl, rest⟩ := List.cons.inj same
          obtain ⟨rfl, behind⟩ := ih (fun c hc => hx c (by simp [hc]))
            (fun c hc => hy c (by simp [hc])) rest
          exact ⟨rfl, behind⟩

namespace Reads

/-- A code with a decoder. -/
theorem of_decode {decode : List σ → Option (α × List σ)}
    (decodes : ∀ a s, decode (code a ++ s) = some (a, s)) (a : α) :
    Reads (fun _ => True) (fun _ => True) code a := by
  intro b _ s t _ _ same
  have both := (decodes a s).symm.trans ((congrArg decode same).trans (decodes b t))
  simpa using both

/-- A list of values, the end of which is marked by a symbol that starts no code. -/
theorem terminated {stop : σ} (each : ∀ a, Reads (fun _ => True) (fun _ => True) code a)
    (starts : ∀ a s, ∃ c rest, code a ++ s = c :: rest ∧ c ≠ stop) (as : List α) :
    Reads (fun _ => True) (fun _ => True) (fun as => as.flatMap code ++ [stop]) as := by
  have nonempty : ∀ {a : α} {s t : List σ}, stop :: s ≠ code a ++ t := by
    intro a s t same
    obtain ⟨c, rest, starting, other⟩ := starts a t
    rw [starting] at same
    exact other (List.cons.inj same).1.symm
  induction as with
  | nil =>
      intro bs _ s t _ _ same
      cases bs with
      | nil => simpa using same
      | cons b bs =>
          simp only [List.flatMap_nil, List.flatMap_cons, List.append_assoc, List.nil_append,
            List.cons_append] at same
          exact (nonempty same).elim
  | cons a as ih =>
      intro bs _ s t _ _ same
      cases bs with
      | nil =>
          simp only [List.flatMap_nil, List.flatMap_cons, List.append_assoc, List.nil_append,
            List.cons_append] at same
          exact (nonempty same.symm).elim
      | cons b bs =>
          simp only [List.flatMap_cons, List.append_assoc] at same
          obtain ⟨rfl, rest⟩ := each a b trivial _ _ trivial trivial same
          obtain ⟨rfl, behind⟩ := ih bs trivial s t trivial trivial (by simpa using rest)
          exact ⟨rfl, behind⟩

end Reads

/-- A list with separators. There is none before the first item, as long as `first` holds. -/
def separated (sep stop : σ) (code : α → List σ) : Bool → List α → List σ
  | _, [] => [stop]
  | first, a :: as =>
      (if first then [] else [sep]) ++ (code a ++ separated sep stop code false as)

/-- A list of values with separators, if no code starts with the symbol for the end. -/
theorem Reads.of_separated {sep stop : σ} {as : List α} (each : ∀ a ∈ as, Reads ok follow code a)
    (follows : ∀ s, follow (sep :: s) ∧ follow (stop :: s)) (distinct : sep ≠ stop)
    (starts : ∀ a, ok a → ∀ s, ∃ c rest, code a ++ s = c :: rest ∧ c ≠ stop)
    (oks : ∀ a ∈ as, ok a) (first : Bool) :
    Reads (fun bs => ∀ b ∈ bs, ok b) (fun _ => True) (separated sep stop code first) as := by
  have admissible : ∀ (as : List α) (s : List σ),
      follow (separated sep stop code false as ++ s) := by
    intro as s
    cases as with
    | nil => exact (follows _).2
    | cons a as => exact (follows _).1
  have nonempty : ∀ {first : Bool} {a : α} {as : List α} {s t : List σ}, ok a →
      stop :: s ≠ separated sep stop code first (a :: as) ++ t := by
    intro first a as s t oka same
    cases first with
    | true =>
        obtain ⟨c, rest, starting, other⟩ := starts a oka (separated sep stop code false as ++ t)
        rw [separated, if_pos rfl, List.nil_append, List.append_assoc, starting] at same
        exact other (List.cons.inj same).1.symm
    | false => exact distinct (List.cons.inj same).1.symm
  induction as generalizing first with
  | nil =>
      intro bs okb s t _ _ same
      cases bs with
      | nil => exact ⟨rfl, (List.cons.inj same).2⟩
      | cons b bs => exact (nonempty (okb b (by simp)) same).elim
  | cons a as ih =>
      intro bs okb s t _ _ same
      cases bs with
      | nil => exact (nonempty (oks a (by simp)) same.symm).elim
      | cons b bs =>
          simp only [separated, List.append_assoc] at same
          have items := List.append_cancel_left same
          obtain ⟨rfl, rest⟩ := each a (by simp) b (okb b (by simp)) _ _ (admissible as s)
            (admissible bs t) items
          obtain ⟨rfl, behind⟩ := ih (fun x hx => each x (by simp [hx]))
            (fun x hx => oks x (by simp [hx])) false bs (fun x hx => okb x (by simp [hx])) s t
            trivial trivial rest
          exact ⟨rfl, behind⟩

section Decimal

theorem toString_inj {n n' : Nat} : toString n = toString n' ↔ n = n' := by
  refine ⟨fun same => ?_, fun same => congrArg toString same⟩
  have digits : Nat.toDigits 10 n = Nat.toDigits 10 n' := by
    rw [← Nat.toList_repr, ← Nat.toList_repr]
    exact congrArg String.toList same
  rw [← Nat.ofDigitChars_ten_toDigits (n := n), digits, Nat.ofDigitChars_ten_toDigits]

theorem isDigit_of_mem_toString {n : Nat} {c : Char} (hc : c ∈ (toString n).toList) :
    c.isDigit = true := by
  have digits : (toString n).toList = Nat.toDigits 10 n := Nat.toList_repr
  rw [digits] at hc
  exact Nat.isDigit_of_mem_toDigits (by decide) (by decide) hc

theorem toString_toList_ne_nil (n : Nat) : (toString n).toList ≠ [] := by
  have digits : (toString n).toList = Nat.toDigits 10 n := Nat.toList_repr
  rw [digits]
  exact Nat.toDigits_ne_nil

/-- The decimal digits of an integer, with its sign if it is negative. -/
theorem int_toString_toList (n : Int) :
    ∃ m : Nat, n = m ∧ (toString n).toList = (toString m).toList ∨
    n = -(m : Int) ∧ 0 < m ∧ (toString n).toList = '-' :: (toString m).toList := by
  cases n with
  | ofNat m => exact ⟨m, .inl ⟨rfl, rfl⟩⟩
  | negSucc m =>
      refine ⟨m + 1, .inr ⟨rfl, Nat.succ_pos m, ?_⟩⟩
      change ("-" ++ toString (m + 1)).toList = _
      rw [String.toList_append]
      rfl

theorem int_toString_inj {n n' : Int} : toString n = toString n' ↔ n = n' := by
  refine ⟨fun same => ?_, fun same => congrArg toString same⟩
  have digits : (toString n).toList = (toString n').toList := congrArg String.toList same
  have unsigned : ∀ {m m' : Nat}, (toString m).toList ≠ '-' :: (toString m').toList := by
    intro m m' impossible
    have digit := isDigit_of_mem_toString (n := m) (c := '-') (by rw [impossible]; simp)
    cases digit
  obtain ⟨m, ⟨rfl, text⟩ | ⟨rfl, _, text⟩⟩ := int_toString_toList n
  · obtain ⟨m', ⟨rfl, text'⟩ | ⟨rfl, _, text'⟩⟩ := int_toString_toList n'
    · rw [text, text', String.toList_inj, toString_inj] at digits
      rw [digits]
    · rw [text, text'] at digits
      exact (unsigned digits).elim
  · obtain ⟨m', ⟨rfl, text'⟩ | ⟨rfl, _, text'⟩⟩ := int_toString_toList n'
    · rw [text, text'] at digits
      exact (unsigned digits.symm).elim
    · rw [text, text', List.cons.injEq, String.toList_inj, toString_inj] at digits
      rw [digits.2]

/-- The number that decimal digits denote. -/
def unsigned (digits : List Char) : Option Int :=
  if digits = [] then none
  else if digits.all Char.isDigit then some (Nat.ofDigitChars 10 digits 0 : Nat) else none

/-- The number that decimal digits denote, with a sign or without one. -/
def signed : List Char → Option Int
  | '-' :: digits => (unsigned digits).map (fun n => -n)
  | '+' :: digits => unsigned digits
  | digits => unsigned digits

theorem unsigned_toString (n : Nat) : unsigned (toString n).toList = some (n : Int) := by
  have digits : (toString n).toList.all Char.isDigit = true :=
    List.all_eq_true.mpr (fun c hc => isDigit_of_mem_toString hc)
  have text : (toString n).toList = Nat.toDigits 10 n := Nat.toList_repr
  rw [unsigned, if_neg (toString_toList_ne_nil n), if_pos digits, text,
    Nat.ofDigitChars_ten_toDigits]

theorem signed_toString (n : Int) : signed (toString n).toList = some n := by
  obtain ⟨m, ⟨rfl, text⟩ | ⟨rfl, _, text⟩⟩ := int_toString_toList n
  · rw [text]
    cases digits : (toString m).toList with
    | nil => exact (toString_toList_ne_nil m digits).elim
    | cons c cs =>
        have first : c ∈ (toString m).toList := by
          rw [digits]
          exact .head _
        have digit : c.isDigit = true := isDigit_of_mem_toString first
        have plain : signed (c :: cs) = unsigned (c :: cs) := by
          unfold signed
          split
          · rename_i same
            cases same
            cases digit
          · rename_i same
            cases same
            cases digit
          · rfl
        rw [plain, ← digits, unsigned_toString]
  · rw [text, signed, unsigned_toString]
    rfl

end Decimal
