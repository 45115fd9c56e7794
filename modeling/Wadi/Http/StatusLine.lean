import Wadi.Http.Grammar

/-!
The status line. What the parser accepts is exactly the line that the returned status is written
as: version digits below ten, three code digits, and a reason phrase of field characters.
-/

namespace Wadi.Http
open ByteText Runs

def digitByte (n : Nat) : UInt8 := UInt8.ofNat (0x30 + n)

def codeDigits (code : UInt16) : Bytes :=
  [digitByte (code.toNat / 100), digitByte (code.toNat / 10 % 10), digitByte (code.toNat % 10)]

/-- The line a status is sent as, its end included. -/
def Status.line (st : Status) : Bytes :=
  ascii "HTTP/" ++ digitByte st.version.major.toNat :: 0x2E ::
    digitByte st.version.minor.toNat :: 0x20 :: (codeDigits st.code ++ 0x20 :: (st.reason ++ crlf))

/-- A status that fits into a status line. -/
structure Status.WellFormed (st : Status) : Prop where
  major : st.version.major < 10
  minor : st.version.minor < 10
  code : st.code < 1000
  reason : ∀ c ∈ st.reason, isFieldChar c = true

theorem expect_eq_ok {c : UInt8} {e : HttpError} {s i : Bytes} :
    expect c e s = .ok i ↔ s = c :: i := by
  cases s with
  | nil => simp [expect]
  | cons d s =>
      by_cases h : d = c
      · simp [expect, h]
      · simp [expect, h]

@[simp] theorem expect_cons (c : UInt8) (e : HttpError) (i : Bytes) :
    expect c e (c :: i) = .ok i :=
  expect_eq_ok.mpr rfl

theorem toNat_digitByte {n : Nat} (small : n < 10) : (digitByte n).toNat = 48 + n :=
  UInt8.toNat_ofNat_of_lt' (by simp [UInt8.size]; omega)

theorem eq_digitByte {c : UInt8} (low : 48 ≤ c.toNat) : c = digitByte (c.toNat - 48) := by
  rw [digitByte, show 0x30 + (c.toNat - 48) = c.toNat by omega, UInt8.ofNat_toNat]

theorem isDigitChar_iff {c : UInt8} : isDigitChar c = true ↔ 48 ≤ c.toNat ∧ c.toNat ≤ 57 := by
  simp [isDigitChar, UInt8.le_iff_toNat_le]

theorem isDigitChar_digitByte {n : Nat} (small : n < 10) : isDigitChar (digitByte n) = true := by
  rw [isDigitChar_iff, toNat_digitByte small]
  omega

theorem digitToUint_eq_ok {c : UInt8} {n : Nat} :
    digitToUint c = .ok n ↔ n < 10 ∧ c = digitByte n := by
  have digit : (0x30 ≤ c ∧ c ≤ 0x39) ↔ 48 ≤ c.toNat ∧ c.toNat ≤ 57 := by
    simp [UInt8.le_iff_toNat_le]
  rw [digitToUint]
  split
  next h =>
    have range := digit.mp h
    constructor
    · rintro ⟨⟩
      exact ⟨by omega, eq_digitByte range.1⟩
    · rintro ⟨small, rfl⟩
      rw [toNat_digitByte small, Nat.add_sub_cancel_left]
  next h =>
    constructor
    · rintro ⟨⟩
    · rintro ⟨small, rfl⟩
      rw [digit, toNat_digitByte small] at h
      omega

theorem parseVersionDigit_eq_ok {s i : Bytes} {n : UInt16} :
    parseVersionDigit s = .ok (n, i) ↔ n < 10 ∧ s = digitByte n.toNat :: i := by
  have bound : n < 10 ↔ n.toNat < 10 := by simp [UInt16.lt_iff_toNat_lt]
  cases s with
  | nil => simp [parseVersionDigit]
  | cons c s =>
      rw [parseVersionDigit, bound, List.cons.injEq]
      constructor
      · intro h
        obtain ⟨d, read, rfl, rfl⟩ : ∃ d, digitToUint c = .ok d ∧ UInt16.ofNat d = n ∧ s = i := by
          obtain ⟨d, read, pair⟩ := map_eq_ok h
          exact ⟨d, read, (Prod.mk.inj pair).1, (Prod.mk.inj pair).2⟩
        obtain ⟨small, rfl⟩ := digitToUint_eq_ok.mp read
        have value : (UInt16.ofNat d).toNat = d :=
          UInt16.toNat_ofNat_of_lt' (by simp [UInt16.size]; omega)
        rw [value]
        exact ⟨small, rfl, rfl⟩
      · rintro ⟨small, rfl, rfl⟩
        rw [digitToUint_eq_ok.mpr ⟨small, rfl⟩, Except.map, UInt16.ofNat_toNat]

theorem parseVersion_eq_ok {s i : Bytes} {v : Version} :
    parseVersion s = .ok (v, i) ↔ v.major < 10 ∧ v.minor < 10 ∧
      s = ascii "HTTP/" ++ digitByte v.major.toNat :: 0x2E :: digitByte v.minor.toNat :: i := by
  constructor
  · intro h
    obtain ⟨i₁, h₁, h⟩ := bind_eq_ok h
    obtain ⟨i₂, h₂, h⟩ := bind_eq_ok h
    obtain ⟨i₃, h₃, h⟩ := bind_eq_ok h
    obtain ⟨i₄, h₄, h⟩ := bind_eq_ok h
    obtain ⟨i₅, h₅, h⟩ := bind_eq_ok h
    obtain ⟨⟨major, i₆⟩, h₆, h⟩ := bind_eq_ok h
    obtain ⟨i₇, h₇, h⟩ := bind_eq_ok h
    obtain ⟨⟨minor, i₈⟩, h₈, h⟩ := bind_eq_ok h
    obtain ⟨rfl, rfl⟩ := Prod.mk.inj (Except.ok.inj h)
    simp only [expect_eq_ok] at h₁ h₂ h₃ h₄ h₅ h₇
    obtain ⟨small, rfl⟩ := parseVersionDigit_eq_ok.mp h₆
    obtain ⟨small', rfl⟩ := parseVersionDigit_eq_ok.mp h₈
    subst h₇ h₅ h₄ h₃ h₂ h₁
    exact ⟨small, small', rfl⟩
  · rintro ⟨major, minor, rfl⟩
    have first := parseVersionDigit_eq_ok.mpr
      ⟨major, (rfl : digitByte v.major.toNat :: 0x2E :: digitByte v.minor.toNat :: i = _)⟩
    have second := parseVersionDigit_eq_ok.mpr
      ⟨minor, (rfl : digitByte v.minor.toNat :: i = _)⟩
    change parseVersion (0x48 :: 0x54 :: 0x54 :: 0x50 :: 0x2F :: _) = _
    simp [parseVersion, first, second, bind, Except.bind, pure, Except.pure]

theorem isDigitChar_of_mem_codeDigits {code : UInt16} (small : code < 1000) :
    ∀ c ∈ codeDigits code, isDigitChar c = true := by
  have bound : code.toNat < 1000 := by simpa [UInt16.lt_iff_toNat_lt] using small
  intro c hc
  simp only [codeDigits, List.mem_cons, List.not_mem_nil, or_false] at hc
  obtain rfl | rfl | rfl := hc <;> exact isDigitChar_digitByte (by omega)

theorem readCode_digits {a b c : Nat} (ha : a < 10) (hb : b < 10) (hc : c < 10) :
    ([digitByte a, digitByte b, digitByte c].foldl
      (fun r d => r * 10 + UInt16.ofNat (d.toNat - 0x30)) 0).toNat = 100 * a + 10 * b + c := by
  simp only [List.foldl_cons, List.foldl_nil, toNat_digitByte ha, toNat_digitByte hb,
    toNat_digitByte hc, Nat.add_sub_cancel_left, UInt16.toNat_add, UInt16.toNat_mul,
    UInt16.toNat_ofNat', UInt16.toNat_ofNat]
  omega

theorem parseStatusCode_eq_ok {s i : Bytes} {code : UInt16} :
    parseStatusCode s = .ok (code, i) ↔
      code < 1000 ∧ s = codeDigits code ++ i ∧ ∀ c, i.head? = some c → isDigitChar c = false := by
  have bound : code < 1000 ↔ code.toNat < 1000 := by simp [UInt16.lt_iff_toNat_lt]
  rw [parseStatusCode]
  constructor
  · intro h
    split at h
    next => cases h
    next three =>
      obtain ⟨value, rest⟩ := Prod.mk.inj (Except.ok.inj h)
      obtain ⟨split, digits, boundary⟩ := span_iff.mp ⟨rfl, rest⟩
      obtain ⟨a, b, c, run⟩ := List.length_eq_three.mp (not_not.mp three)
      rw [run] at split digits value
      have ha := isDigitChar_iff.mp (digits a (by simp))
      have hb := isDigitChar_iff.mp (digits b (by simp))
      have hc := isDigitChar_iff.mp (digits c (by simp))
      rw [eq_digitByte ha.1, eq_digitByte hb.1, eq_digitByte hc.1] at value split
      have number : code.toNat = _ := value ▸ readCode_digits
        (by omega : a.toNat - 48 < 10) (by omega : b.toNat - 48 < 10)
        (by omega : c.toNat - 48 < 10)
      refine ⟨bound.mpr (by omega), ?_, boundary⟩
      have hundreds : code.toNat / 100 = a.toNat - 48 := by omega
      have tens : code.toNat / 10 % 10 = b.toNat - 48 := by omega
      have ones : code.toNat % 10 = c.toNat - 48 := by omega
      rw [split, codeDigits, hundreds, tens, ones]
  · rintro ⟨small, rfl, boundary⟩
    have digits := isDigitChar_of_mem_codeDigits small
    obtain ⟨run, rest⟩ := takeWhile_run i digits boundary
    rw [run, rest, if_neg (by simp [codeDigits])]
    have value := readCode_digits (a := code.toNat / 100) (b := code.toNat / 10 % 10)
      (c := code.toNat % 10) (by have := bound.mp small; omega) (by omega) (by omega)
    have same : (codeDigits code).foldl (fun r d => r * 10 + UInt16.ofNat (d.toNat - 0x30)) 0 =
        code := by
      rw [← UInt16.toNat_inj, codeDigits, value]
      omega
    rw [same]

theorem isFieldChar_cr : isFieldChar 0x0D = false := by decide

theorem parseReasonPhrase_eq {s reason i : Bytes} :
    parseReasonPhrase s = (reason, i) ↔ s = reason ++ i ∧ (∀ c ∈ reason, isFieldChar c = true) ∧
      ∀ c, i.head? = some c → isFieldChar c = false := by
  rw [parseReasonPhrase, Prod.mk.injEq, span_iff]

/-- The parser accepts what a status is written as, and nothing else. -/
theorem parseStatusLine_eq_ok {s i : Bytes} {st : Status} :
    parseStatusLine s = .ok (st, i) ↔ st.WellFormed ∧ s = st.line ++ i := by
  constructor
  · intro h
    obtain ⟨⟨version, i₁⟩, h₁, h⟩ := bind_eq_ok h
    obtain ⟨i₂, h₂, h⟩ := bind_eq_ok h
    obtain ⟨⟨code, i₃⟩, h₃, h⟩ := bind_eq_ok h
    obtain ⟨i₄, h₄, h⟩ := bind_eq_ok h
    cases phrase : parseReasonPhrase i₄ with
    | mk reason i₅ =>
        rw [phrase] at h
        obtain ⟨i₆, h₆, h⟩ := bind_eq_ok h
        obtain ⟨i₇, h₇, h⟩ := bind_eq_ok h
        obtain ⟨rfl, rfl⟩ := Prod.mk.inj (Except.ok.inj h)
        obtain ⟨major, minor, rfl⟩ := parseVersion_eq_ok.mp h₁
        obtain ⟨small, rfl, -⟩ := parseStatusCode_eq_ok.mp h₃
        obtain ⟨rfl, chars, -⟩ := parseReasonPhrase_eq.mp phrase
        obtain rfl := expect_eq_ok.mp h₂
        obtain rfl := expect_eq_ok.mp h₄
        obtain rfl := expect_eq_ok.mp h₆
        obtain rfl := expect_eq_ok.mp h₇
        exact ⟨⟨major, minor, small, chars⟩, by simp [Status.line, crlf]⟩
  · rintro ⟨fits, rfl⟩
    have version := (parseVersion_eq_ok (v := st.version)
      (i := 0x20 :: (codeDigits st.code ++ 0x20 :: (st.reason ++ 0x0D :: 0x0A :: i)))).mpr
      ⟨fits.major, fits.minor, rfl⟩
    have code := (parseStatusCode_eq_ok (i := 0x20 :: (st.reason ++ 0x0D :: 0x0A :: i))).mpr
      ⟨fits.code, rfl, by simp [isDigitChar]⟩
    have phrase := (parseReasonPhrase_eq (i := 0x0D :: 0x0A :: i)).mpr
      ⟨rfl, fits.reason, by simp [isFieldChar_cr]⟩
    have text : st.line ++ i = ascii "HTTP/" ++ digitByte st.version.major.toNat :: 0x2E ::
        digitByte st.version.minor.toNat :: 0x20 ::
          (codeDigits st.code ++ 0x20 :: (st.reason ++ 0x0D :: 0x0A :: i)) := by
      simp [Status.line, crlf]
    rw [text, parseStatusLine, version]
    simp [code, phrase, bind, Except.bind, pure, Except.pure]

end Wadi.Http
