import Telegraph.Lib.Reader

/-!
# Scanners

A scanner walks a buffer as a format describes it and says how a reader of that format
ends: with a value at some offset, by running short, by rejecting what it read, by
raising, or only after taking everything to the end of the buffer. `Follows s p` says
that the reader `p` does what the scanner `s` predicts, on buffers below a given size, and
that it looks at nothing behind the point where the scanner stops.

## Main results

* `Follows.bind`: scanners compose as readers do.
* `Follows.replicateM`: a repeated reader follows the repeated scanner.
* `Follows.safe_iff`: **a reader that follows a scanner is safe exactly where the scanner
  does not raise.**
* `Follows.stable` (a field): behind a settled scan, bytes appended change nothing.
-/

universe u

/-- How the reader of a format ends. -/
inductive Scan where
  /-- The buffer ends too early. -/
  | short
  /-- What was read is not allowed. -/
  | rejected
  /-- The reader raises. -/
  | raises
  /-- The reader takes everything to the end of the buffer. -/
  | toEnd
  /-- The reader ends at this offset. -/
  | done (offset : ℕ)
deriving DecidableEq

/-- A prediction for every buffer and every offset. -/
def Scanner : Type :=
  List UInt8 → ℕ → Scan

namespace Scanner

/-- Read nothing. -/
def nil : Scanner := fun _ offset => .done offset

/-- Reject. -/
def reject : Scanner := fun _ _ => .rejected

/-- Take everything to the end of the buffer. -/
def rest : Scanner := fun _ _ => .toEnd

/-- `n` bytes, on which the rest of the scan may depend. -/
def bytesThen (n : ℕ) (g : List UInt8 → Scanner) : Scanner := fun data offset =>
  if offset + n ≤ data.length then g ((data.drop offset).take n) data (offset + n) else .short

/-- `n` bytes. -/
def bytes (n : ℕ) : Scanner :=
  bytesThen n fun _ => nil

/-- One scan after the other. -/
def andThen (s t : Scanner) : Scanner := fun data offset =>
  match s data offset with
  | .done e => t data e
  | r => r

/-- The same scan `n` times. -/
def repeated (s : Scanner) : ℕ → Scanner
  | 0 => nil
  | n + 1 => s.andThen (s.repeated n)

/-- A scanner that never takes the rest of the buffer. -/
def Closed (s : Scanner) : Prop :=
  ∀ data offset, s data offset ≠ .toEnd

theorem closed_nil : Closed nil := fun _ _ h => nomatch h

theorem closed_reject : Closed reject := fun _ _ h => nomatch h

theorem closed_bytesThen {n : ℕ} {g : List UInt8 → Scanner} (hg : ∀ bs, (g bs).Closed) :
    (bytesThen n g).Closed := by
  intro data offset
  simp only [bytesThen]
  split
  · exact hg _ _ _
  · exact fun h => nomatch h

theorem closed_bytes (n : ℕ) : (bytes n).Closed :=
  closed_bytesThen fun _ => closed_nil

theorem Closed.andThen {s t : Scanner} (hs : s.Closed) (ht : t.Closed) :
    (s.andThen t).Closed := by
  intro data offset
  simp only [Scanner.andThen]
  split
  · exact ht _ _
  · exact hs data offset

theorem Closed.repeated {s : Scanner} (hs : s.Closed) (n : ℕ) : (s.repeated n).Closed := by
  induction n with
  | zero => exact closed_nil
  | succ n ih => exact hs.andThen ih

/-- A dependent scan goes on inside the dependence. -/
theorem bytesThen_andThen {n : ℕ} {g : List UInt8 → Scanner} {t : Scanner} :
    (bytesThen n g).andThen t = bytesThen n fun bs => (g bs).andThen t := by
  funext data offset
  by_cases h : offset + n ≤ data.length
  · simp only [andThen, bytesThen, if_pos h]
  · simp only [andThen, bytesThen, if_neg h]

theorem nil_andThen (t : Scanner) : nil.andThen t = t := rfl

theorem andThen_done {s t : Scanner} {data : List UInt8} {offset e : ℕ}
    (h : s data offset = .done e) : s.andThen t data offset = t data e := by
  simp only [andThen, h]

theorem andThen_nil (s : Scanner) : s.andThen nil = s := by
  funext data offset
  simp only [andThen, nil]
  split
  · rename_i e h
    exact h.symm
  · rfl

/-- Adjacent runs of bytes are one run. -/
theorem bytes_andThen (m n : ℕ) : (bytes m).andThen (bytes n) = bytes (m + n) := by
  funext data offset
  simp only [bytes, bytesThen_andThen, nil_andThen, bytesThen, nil, Nat.add_assoc]
  split
  · rfl
  · rw [if_neg (by omega)]

/-- A scan that stops early stops the whole. -/
theorem andThen_of_ne {s t : Scanner} {data : List UInt8} {offset : ℕ}
    (h : ∀ e, s data offset ≠ .done e) : s.andThen t data offset = s data offset := by
  cases hs : s data offset with
  | done e => exact absurd hs (h e)
  | short => simp only [andThen, hs]
  | rejected => simp only [andThen, hs]
  | raises => simp only [andThen, hs]
  | toEnd => simp only [andThen, hs]

end Scanner

/-- A scan whose outcome does not depend on what lies behind the buffer. -/
def Scan.Settled : Scan → Prop
  | .short => False
  | .toEnd => False
  | _ => True

instance : (r : Scan) → Decidable r.Settled
  | .short => inferInstanceAs (Decidable False)
  | .toEnd => inferInstanceAs (Decidable False)
  | .rejected => inferInstanceAs (Decidable True)
  | .raises => inferInstanceAs (Decidable True)
  | .done _ => inferInstanceAs (Decidable True)

namespace Reader

variable {α β : Type u}

/-- What a scan promises about the result of the reader. -/
def Predicted (size : ℕ) : Scan → ReadResult α → Prop
  | .done e, r => (∃ a, r.outcome = .value a) ∧ r.offset = e ∧ InBounds size r
  | .short, r => r.outcome = .failed ∧ InBounds size r
  | .rejected, r => r.outcome = .failed ∧ InBounds size r
  | .raises, r => r.outcome = .raised
  | .toEnd, r => r.outcome ≠ .raised ∧ InBounds size r

/-- The reader `p` does what the scanner `s` predicts on every buffer shorter than
`bound`, and where the scan is settled it does the same with bytes appended. -/
structure Follows (bound : ℕ) (s : Scanner) (p : Reader α) : Prop where
  runs : ∀ data offset, data.length < bound → offset ≤ data.length →
    Predicted data.length (s data offset) (p data offset)
  stable : ∀ data more offset, (data ++ more).length < bound → offset ≤ data.length →
    (s data offset).Settled → p (data ++ more) offset = p data offset

/-- A result is safe when nothing was raised and every access was in bounds. -/
def Safe (size : ℕ) (r : ReadResult α) : Prop :=
  r.outcome ≠ .raised ∧ InBounds size r

variable {bound : ℕ} {s t : Scanner} {p : Reader α} {f : α → Reader β}

/-- Accesses made before do not change what a scan promises. -/
theorem Predicted.after {size o : ℕ} {r : Scan} {c : Outcome α} {as : List Access}
    {q : ReadResult β} (has : InBounds size ⟨c, o, as⟩) (h : Predicted size r q) :
    Predicted size r (q.after as) := by
  cases r with
  | done e => exact ⟨h.1, h.2.1, has.append h.2.2⟩
  | short => exact ⟨h.1, has.append h.2⟩
  | rejected => exact ⟨h.1, has.append h.2⟩
  | raises => exact h
  | toEnd => exact ⟨h.1, has.append h.2⟩

/-- A failure ends the composed reader. -/
theorem bind_of_failed {data : List UInt8} {offset size : ℕ}
    (h : (p data offset).outcome = .failed ∧ InBounds size (p data offset)) :
    ((p >>= f) data offset).outcome = .failed ∧ InBounds size ((p >>= f) data offset) := by
  obtain ⟨hc, hb⟩ := h
  cases hp : p data offset with
  | mk c o as =>
      rw [hp] at hc hb
      obtain rfl : c = .failed := hc
      rw [bind_failed hp]
      exact ⟨rfl, hb.offset_le, hb.inside, hb.forward⟩

/-- An exception ends the composed reader. -/
theorem bind_of_raised {data : List UInt8} {offset : ℕ}
    (h : (p data offset).outcome = .raised) : ((p >>= f) data offset).outcome = .raised := by
  cases hp : p data offset with
  | mk c o as =>
      rw [hp] at h
      obtain rfl : c = .raised := h
      rw [bind_raised hp]

/-- Where the first part ends without a value, the composed reader only depends on it. -/
theorem bind_congr {data data' : List UInt8} {offset : ℕ} (h : p data' offset = p data offset)
    (hv : ∀ a, (p data offset).outcome ≠ .value a) :
    (p >>= f) data' offset = (p >>= f) data offset := by
  cases hp : p data offset with
  | mk c o as =>
      rw [hp] at h hv
      cases c with
      | value a => exact absurd rfl (hv a)
      | failed => rw [bind_failed h, bind_failed hp]
      | raised => rw [bind_raised h, bind_raised hp]

/-- **Scanners compose as readers do.** -/
theorem Follows.bind (hs : s.Closed) (hp : Follows bound s p)
    (hf : ∀ a, Follows bound t (f a)) : Follows bound (s.andThen t) (p >>= f) := by
  refine ⟨fun data offset hdata ho => ?_, fun data more offset hdata ho hsettled => ?_⟩
  · have hrun := hp.runs data offset hdata ho
    cases hscan : s data offset with
    | done e =>
        rw [hscan] at hrun
        rw [Scanner.andThen_done hscan]
        obtain ⟨⟨a, ha⟩, he, hb⟩ := hrun
        cases hres : p data offset with
        | mk c o as =>
            rw [hres] at ha he hb
            obtain rfl : c = .value a := ha
            obtain rfl : o = e := he
            rw [bind_value hres]
            exact ((hf a).runs data o hdata hb.offset_le).after hb
    | short =>
        rw [hscan] at hrun
        rw [Scanner.andThen_of_ne (by simp [hscan]), hscan]
        exact bind_of_failed hrun
    | rejected =>
        rw [hscan] at hrun
        rw [Scanner.andThen_of_ne (by simp [hscan]), hscan]
        exact bind_of_failed hrun
    | raises =>
        rw [hscan] at hrun
        rw [Scanner.andThen_of_ne (by simp [hscan]), hscan]
        exact bind_of_raised hrun
    | toEnd => exact absurd hscan (hs data offset)
  · have hlen : data.length < bound := by
      rw [List.length_append] at hdata
      omega
    have hrun := hp.runs data offset hlen ho
    cases hscan : s data offset with
    | done e =>
        have hsame := hp.stable data more offset hdata ho (by rw [hscan]; trivial)
        rw [hscan] at hrun
        rw [Scanner.andThen_done hscan] at hsettled
        obtain ⟨⟨a, ha⟩, he, hb⟩ := hrun
        cases hres : p data offset with
        | mk c o as =>
            rw [hres] at ha he hb hsame
            obtain rfl : c = .value a := ha
            obtain rfl : o = e := he
            rw [bind_value hres, bind_value hsame,
              (hf a).stable data more o hdata hb.offset_le hsettled]
    | short =>
        rw [Scanner.andThen_of_ne (by simp [hscan]), hscan] at hsettled
        exact absurd hsettled id
    | rejected =>
        have hsame := hp.stable data more offset hdata ho (by rw [hscan]; trivial)
        rw [hscan] at hrun
        exact bind_congr hsame fun a ha => by simp [hrun.1] at ha
    | raises =>
        have hsame := hp.stable data more offset hdata ho (by rw [hscan]; trivial)
        rw [hscan] at hrun
        have hraised : (p data offset).outcome = .raised := hrun
        exact bind_congr hsame fun a ha => by simp [hraised] at ha
    | toEnd => exact absurd hscan (hs data offset)

/-- Reading nothing. -/
theorem follows_pure (a : α) : Follows bound .nil (pure a : Reader α) :=
  ⟨fun _ _ _ ho => ⟨⟨a, rfl⟩, rfl, .of_nil ho⟩, fun _ _ _ _ _ _ => rfl⟩

/-- Rejecting. -/
theorem follows_fail : Follows bound .reject (fail : Reader α) :=
  ⟨fun _ _ _ ho => ⟨rfl, .of_nil ho⟩, fun _ _ _ _ _ _ => rfl⟩

/-- A repeated reader follows the repeated scanner. -/
theorem Follows.replicateM (hs : s.Closed) (hp : Follows bound s p) (n : ℕ) :
    Follows bound (s.repeated n) (p.replicateM n) := by
  induction n with
  | zero => exact follows_pure []
  | succ n ih =>
      refine hp.bind hs fun a => ?_
      have hlast : Follows bound ((s.repeated n).andThen .nil)
          (p.replicateM n >>= fun as => pure (a :: as)) :=
        ih.bind (hs.repeated n) fun as => follows_pure _
      rwa [Scanner.andThen_nil] at hlast

/-- **A reader that follows a scanner is safe exactly where the scanner does not raise.** -/
theorem Follows.safe_iff (hp : Follows bound s p) {data : List UInt8} {offset : ℕ}
    (hdata : data.length < bound) (ho : offset ≤ data.length) :
    Safe data.length (p data offset) ↔ s data offset ≠ .raises := by
  have hrun := hp.runs data offset hdata ho
  cases hscan : s data offset with
  | done e =>
      rw [hscan] at hrun
      obtain ⟨⟨a, ha⟩, -, hb⟩ := hrun
      exact iff_of_true ⟨by simp [ha], hb⟩ (by simp)
  | short =>
      rw [hscan] at hrun
      exact iff_of_true ⟨by simp [hrun.1], hrun.2⟩ (by simp)
  | rejected =>
      rw [hscan] at hrun
      exact iff_of_true ⟨by simp [hrun.1], hrun.2⟩ (by simp)
  | raises =>
      rw [hscan] at hrun
      exact iff_of_false (fun h => h.1 hrun) (by simp)
  | toEnd =>
      rw [hscan] at hrun
      exact iff_of_true hrun (by simp)

end Reader
