import Telegraph.Lib.Bytes

/-!
# Writers and Parsers of Byte Streams

A writer appends to a buffer and may raise; a parser takes bytes from the front of a stream and
may raise. A hand-written pair of them agrees on a format when the writer appends exactly the
bytes of the format and the parser takes exactly these bytes, whatever follows. Both notions go
through sequences, so that a pair is checked field by field.

## Main results

* `Appends.seq`, `Reads.bind`: what two steps write and read is what they write and read in turn.
* `Appends.forM`, `Reads.times`: the same for a loop over a list.
* `Yields.bind`: what a parser gives, whatever it reads.
* `ReadsBack.seq`: two values in turn are read back exactly if each of them is.
-/

namespace Codec

/-- A writer to a buffer that may raise. -/
abbrev Writer := StateT (List UInt8) Option Unit

/-- A parser of the front of a stream that may raise. -/
abbrev Parser (α : Type) := StateT (List UInt8) Option α

variable {α β : Type}

/-- The second parser goes on where the first one stopped. -/
theorem run_bind {p : Parser α} {q : α → Parser β} {stream rest : List UInt8} {a : α}
    (h : p stream = some (a, rest)) : (p >>= q) stream = q a rest := by
  show (p stream >>= fun r => q r.1 r.2) = _
  rw [h]
  rfl

/-- Run a parser `n` times and collect what it gives. -/
def times (p : Parser α) : ℕ → Parser (List α)
  | 0 => pure []
  | n + 1 => do
      let a ← p
      let as ← times p n
      pure (a :: as)

/-- Run a parser if a condition holds, and keep the old value otherwise. -/
def readIf (condition : Prop) [Decidable condition] (p : Parser α) (old : α) : Parser α :=
  if condition then p else pure old

/-- What is written for each element takes at least as many bytes as there are elements. -/
theorem length_le_flatMap {bytes : α → List UInt8} {as : List α}
    (h : ∀ a ∈ as, bytes a ≠ []) : as.length ≤ (as.flatMap bytes).length := by
  induction as with
  | nil => exact Nat.zero_le _
  | cons a as ih =>
      have hhead := List.length_pos_iff.mpr (h a List.mem_cons_self)
      have htail := ih fun b hb => h b (List.mem_cons_of_mem a hb)
      rw [List.flatMap_cons, List.length_append, List.length_cons]
      omega

/-- What is written for one element is part of what is written for all. -/
theorem length_bytes_le_flatMap {bytes : α → List UInt8} {as : List α} {a : α} (h : a ∈ as) :
    (bytes a).length ≤ (as.flatMap bytes).length := by
  obtain ⟨before, after, rfl⟩ := List.append_of_mem h
  rw [List.flatMap_append, List.flatMap_cons, List.length_append, List.length_append]
  omega

/-! ### What a writer appends -/

/-- As long as the buffer stays below `bound` bytes, the writer appends these bytes. -/
def Appends (bound : ℕ) (w : Writer) (bytes : List UInt8) : Prop :=
  ∀ buffer, buffer.length + bytes.length < bound → w buffer = some ((), buffer ++ bytes)

section

variable {bound : ℕ} {w v : Writer} {bs cs : List UInt8}

theorem Appends.nil : Appends bound (pure ()) [] := by
  intro buffer _
  rw [List.append_nil]
  rfl

/-- Two writers in turn append what the first appends and then what the second does. -/
theorem Appends.seq (hw : Appends bound w bs) (hv : Appends bound v cs) :
    Appends bound (w >>= fun _ => v) (bs ++ cs) := by
  intro buffer hbuffer
  rw [List.length_append] at hbuffer
  have hfirst := hw buffer (by omega)
  have hsecond := hv (buffer ++ bs) (by rw [List.length_append]; omega)
  show (w buffer >>= fun r => v r.2) = _
  rw [hfirst, ← List.append_assoc]
  exact hsecond

/-- Bytes that do not fit are of no interest. -/
theorem Appends.of_lt (h : bs.length < bound → Appends bound w bs) : Appends bound w bs :=
  fun buffer hbuffer => h (by omega) buffer hbuffer

/-- A loop over a list appends what it appends for each element. -/
theorem Appends.forM {f : α → Writer} {bytes : α → List UInt8} (as : List α)
    (h : ∀ a ∈ as, Appends bound (f a) (bytes a)) :
    Appends bound (as.forM f) (as.flatMap bytes) := by
  induction as with
  | nil => exact Appends.nil
  | cons a as ih =>
      rw [List.flatMap_cons]
      exact (h a List.mem_cons_self).seq (ih fun b hb => h b (List.mem_cons_of_mem a hb))

end

/-! ### What a parser reads -/

/-- The parser takes exactly these bytes, whatever follows, and gives this value. -/
def Reads (p : Parser α) (bytes : List UInt8) (a : α) : Prop :=
  ∀ rest, p (bytes ++ rest) = some (a, rest)

section

variable {p : Parser α} {q : α → Parser β} {bs cs : List UInt8} {a : α} {b : β}

theorem Reads.pure (a : α) : Reads (pure a) [] a := fun _ => rfl

/-- Two parsers in turn take what the first takes and then what the second does. -/
theorem Reads.bind (hp : Reads p bs a) (hq : Reads (q a) cs b) :
    Reads (p >>= q) (bs ++ cs) b := by
  intro rest
  rw [List.append_assoc, run_bind (hp (cs ++ rest))]
  exact hq rest

/-- A parser whose value is used and nothing else read. -/
theorem Reads.last {f : α → β} (hp : Reads p bs a) :
    Reads (p >>= fun a => Pure.pure (f a)) bs (f a) := by
  have h : Reads (p >>= fun a => Pure.pure (f a)) (bs ++ []) (f a) := hp.bind (Reads.pure (f a))
  rwa [List.append_nil] at h

/-- A parser that is run for each element of a list takes what each run takes. -/
theorem Reads.times {γ : Type} {bytes : γ → List UInt8} {value : γ → α} (as : List γ)
    (h : ∀ a ∈ as, Reads p (bytes a) (value a)) :
    Reads (Codec.times p as.length) (as.flatMap bytes) (as.map value) := by
  induction as with
  | nil => exact Reads.pure []
  | cons a as ih =>
      rw [List.flatMap_cons]
      exact (h a List.mem_cons_self).bind
        (ih fun b hb => h b (List.mem_cons_of_mem a hb)).last

end

/-! ### What a parser gives -/

/-- Whatever the parser reads, what it gives is such a value. -/
def Yields (p : Parser α) (Q : α → Prop) : Prop :=
  ∀ stream a rest, p stream = some (a, rest) → Q a

section

variable {p : Parser α} {q : α → Parser β} {P : α → Prop} {Q : β → Prop}

theorem yields_true (p : Parser α) : Yields p fun _ => True := fun _ _ _ _ => trivial

theorem Yields.pure {a : α} (h : P a) : Yields (Pure.pure a) P := by
  intro stream b rest hrun
  obtain ⟨rfl, -⟩ := Prod.mk.inj (Option.some.inj hrun)
  exact h

/-- What the second parser gives for what the first one gave. -/
theorem Yields.bind (hp : Yields p P) (hq : ∀ a, P a → Yields (q a) Q) : Yields (p >>= q) Q := by
  intro stream b rest hrun
  obtain ⟨⟨a, middle⟩, hfirst, hsecond⟩ := Option.bind_eq_some_iff.mp hrun
  exact hq a (hp stream a middle hfirst) middle b rest hsecond

/-- What the second parser gives whatever the first one gave. -/
theorem Yields.after (hq : ∀ a, Yields (q a) Q) : Yields (p >>= q) Q :=
  (yields_true p).bind fun a _ => hq a

theorem Yields.times (hp : Yields p P) (n : ℕ) :
    Yields (Codec.times p n) fun as => ∀ a ∈ as, P a := by
  induction n with
  | zero => exact Yields.pure fun a ha => absurd ha List.not_mem_nil
  | succ n ih =>
      refine hp.bind fun a ha => ih.bind fun as has => Yields.pure ?_
      rintro b (_ | ⟨_, hb⟩)
      · exact ha
      · exact has b hb

end

/-- A parser that is run `n` times gives `n` values. -/
theorem yields_length_times (p : Parser α) (n : ℕ) :
    Yields (Codec.times p n) fun as => as.length = n := by
  induction n with
  | zero => exact Yields.pure rfl
  | succ n ih =>
      refine Yields.after fun a => ih.bind fun as has => Yields.pure ?_
      rw [List.length_cons, has]

/-! ### What is read back, and what is not -/

/-- If the condition holds, what is written for a value is read back, whatever follows, and
otherwise the value is not read. -/
structure ReadsBack (condition : Prop) (written : Option (List UInt8)) (p : Parser α) (a : α) :
    Prop where
  reads : condition → ∃ bytes, written = some bytes ∧ Reads p bytes a
  never : ¬ condition → ∀ bytes, written = some bytes → ∀ rest b rest',
    p (bytes ++ rest) = some (b, rest') → b ≠ a

section

variable {P Q : Prop} {w v : Option (List UInt8)} {p : Parser α} {q : Parser β} {a : α} {b : β}
  {bs : List UInt8}

/-- What is always read back. -/
theorem ReadsBack.of_reads (hw : w = some bs) (h : Reads p bs a) : ReadsBack True w p a :=
  ⟨fun _ => ⟨bs, hw, h⟩, fun hfalse => absurd trivial hfalse⟩

/-- A condition that says the same. -/
theorem ReadsBack.of_iff (h : ReadsBack P w p a) (hiff : Q ↔ P) : ReadsBack Q w p a :=
  ⟨fun hq => h.reads (hiff.mp hq), fun hq => h.never fun hp => hq (hiff.mpr hp)⟩

/-- A value that is not read under any condition. -/
theorem ReadsBack.of_never (hcondition : ¬ P)
    (h : ∀ bytes, w = some bytes → ∀ rest b rest', p (bytes ++ rest) = some (b, rest') → b ≠ a) :
    ReadsBack P w p a :=
  ⟨fun hp => absurd hp hcondition, fun _ => h⟩

/-- What is read behind other bytes. -/
theorem ReadsBack.after {r : α → Parser β} (hp : Reads p bs a) (h : ReadsBack P w (r a) b) :
    ReadsBack P (w.map fun bytes => bs ++ bytes) (p >>= r) b where
  reads := fun hP => by
    obtain ⟨bytes, hw, hreads⟩ := h.reads hP
    exact ⟨bs ++ bytes, by rw [hw, Option.map_some], hp.bind hreads⟩
  never := fun hP bytes hbytes rest c rest' hrun => by
    obtain ⟨behind, hw, rfl⟩ := Option.map_eq_some_iff.mp hbytes
    rw [List.append_assoc, run_bind (hp (behind ++ rest))] at hrun
    exact h.never hP behind hw rest c rest' hrun

/-- A value of which something is made that tells it. -/
theorem ReadsBack.map {f : α → β} (h : ReadsBack P w p a)
    (hf : ∀ bytes, w = some bytes → ∀ rest c rest', p (bytes ++ rest) = some (c, rest') →
      f c = f a → c = a) :
    ReadsBack P w (p >>= fun a => Pure.pure (f a)) (f a) where
  reads := fun hP => by
    obtain ⟨bytes, hw, hreads⟩ := h.reads hP
    exact ⟨bytes, hw, hreads.last⟩
  never := fun hP bytes hw rest c rest' hrun heq => by
    obtain ⟨⟨d, middle⟩, hfirst, hsecond⟩ := Option.bind_eq_some_iff.mp hrun
    obtain ⟨rfl, -⟩ := Prod.mk.inj (Option.some.inj hsecond)
    exact h.never hP bytes hw rest d middle hfirst (hf bytes hw rest d middle hfirst heq)

/-- **Two values in turn are read back if each of them is.** -/
theorem ReadsBack.seq {γ : Type} {f : α → β → γ} (hp : ReadsBack P w p a)
    (hq : ReadsBack Q v q b) (hf : ∀ c d, f c d = f a b → c = a ∧ d = b) :
    ReadsBack (P ∧ Q) (do let bs ← w; let cs ← v; pure (bs ++ cs))
      (do let a ← p; let b ← q; pure (f a b)) (f a b) where
  reads := fun ⟨hP, hQ⟩ => by
    obtain ⟨bytes, hw, hfirst⟩ := hp.reads hP
    obtain ⟨others, hv, hsecond⟩ := hq.reads hQ
    refine ⟨bytes ++ others, ?_, hfirst.bind hsecond.last⟩
    rw [hw, hv]
    rfl
  never := fun hPQ bytes hbytes rest c rest' hrun heq => by
    obtain ⟨first, hw, hbytes⟩ := Option.bind_eq_some_iff.mp hbytes
    obtain ⟨second, hv, hbytes⟩ := Option.bind_eq_some_iff.mp hbytes
    obtain rfl := Option.some.inj hbytes
    rw [List.append_assoc] at hrun
    obtain ⟨⟨d, middle⟩, hfirst, hrun⟩ := Option.bind_eq_some_iff.mp hrun
    obtain ⟨⟨e, last⟩, hsecond, hrun⟩ := Option.bind_eq_some_iff.mp hrun
    obtain ⟨rfl, -⟩ := Prod.mk.inj (Option.some.inj hrun)
    obtain ⟨hd, he⟩ := hf d e heq
    by_cases hP : P
    · obtain ⟨_, hw', hreads⟩ := hp.reads hP
      obtain rfl := Option.some.inj (hw.symm.trans hw')
      obtain ⟨-, rfl⟩ := Prod.mk.inj (Option.some.inj ((hreads _).symm.trans hfirst))
      exact hq.never (fun hQ => hPQ ⟨hP, hQ⟩) second hv rest e last hsecond he
    · exact hp.never hP first hw _ d middle hfirst hd

end

end Codec
