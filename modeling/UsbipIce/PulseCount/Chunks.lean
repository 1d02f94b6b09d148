import Mathlib.Data.Fintype.Basic
import Mathlib.Data.List.FinRange
import UsbipIce.Lib.Keys
import UsbipIce.PulseCount.Firmware

/-!
# The chunks a reader gets

What `port.read` returns is not a message but whatever is waiting, or the next
byte. `Reader.read` makes a text of it with `str`, which for bytes is their
literal (`UsbipIce.PulseCount.strBytes`), and searches that text.

The literal shows the characters of the patterns as they are, and shows nothing
else as one of them, so it is searched with the same result as the bytes are
(`UsbipIce.PulseCount.signals_strBytes`). What is searched for are then keys in
the sense of `Lib.Keys`: the count, the timeout and the announcement
(`UsbipIce.PulseCount.keys`).

Read message by message, the keys of the stream are read, since no key goes
beyond its message and no message has two of them
(`UsbipIce.PulseCount.flatMap_readChunk_bytes`). Read in other chunks, they are
read exactly where the chunks keep the keys apart
(`UsbipIce.PulseCount.flatMap_readChunk_iff_apart`).
-/

namespace UsbipIce.PulseCount

open Lib

/-! ### The text of some bytes -/

/-- The character with the number of the byte. -/
def chr (b : UInt8) : Char := Char.ofNat b.toNat

/-- The byte of a character that has one. -/
def byte (c : Char) : UInt8 := UInt8.ofNat c.toNat

/-- A byte between the quotes of a literal. -/
def escape (quote : Char) (b : UInt8) : List Char :=
  if chr b = quote ∨ chr b = '\\' then ['\\', chr b]
  else if chr b = '\t' then ['\\', 't']
  else if chr b = '\n' then ['\\', 'n']
  else if chr b = '\r' then ['\\', 'r']
  else if b.toNat < 32 ∨ 127 ≤ b.toNat then
    ['\\', 'x', Nat.digitChar (b.toNat / 16), Nat.digitChar (b.toNat % 16)]
  else [chr b]

/-- The quotes of the literal: double ones where the bytes have a single one and
no double one. -/
def quoteOf (data : List UInt8) : Char :=
  if byte '\'' ∈ data ∧ byte '"' ∉ data then '"' else '\''

/-- The bytes and the quote behind them. -/
def escaped (quote : Char) (data : List UInt8) : List Char :=
  data.flatMap (escape quote) ++ [quote]

/-- `str(data)`. -/
def strBytes (data : List UInt8) : List Char :=
  'b' :: quoteOf data :: escaped (quoteOf data) data

/-- **What `Reader.read` does about what `port.read` returned.** -/
def readChunk (data : List UInt8) : List (Signal (List Char)) :=
  if data = [] then [] else signals (strBytes data)

example : strBytes ("it's \r\n".toList.map byte) = "b\"it's \\r\\n\"".toList := by decide

/-! ### The keys -/

/-- `"pulses: ([0-9]+)"`, and the length of the match. -/
def pulsesKey (l : List Char) : Option (Signal (List Char) × ℕ) :=
  (l.dropPrefix? "pulses: ".toList).bind fun r =>
    (many Char.isDigit r).map fun n => (.pulses n, 8 + n.length)

/-- A literal that stands for a signal, and its length. -/
def literalKey (p : List Char) (s : Signal (List Char)) (l : List Char) :
    Option (Signal (List Char) × ℕ) :=
  (l.dropPrefix? p).bind fun _ => some (s, p.length)

/-- The three searches, in their order. -/
def keyPattern (i : Fin 3) : List Char → Option (Signal (List Char) × ℕ) :=
  match i with
  | 0 => pulsesKey
  | 1 => literalKey "Watchdog timeout".toList .timeout
  | 2 => literalKey "Waiting for bitstream transfer".toList .wait

/-- The search that leads to a signal. -/
def Signal.kind {ν : Type*} : Signal ν → Fin 3
  | .pulses _ => 0
  | .timeout => 1
  | .wait => 2

/-- A key begins with its first character. -/
def keyHead : Fin 3 → Char
  | 0 => 'p'
  | 1 | 2 => 'W'

theorem pulsesKey_eq_some {l : List Char} {s : Signal (List Char)} {n : ℕ} :
    pulsesKey l = some (s, n) ↔ ∃ r, l = "pulses: ".toList ++ r ∧ r.takeWhile Char.isDigit ≠ [] ∧
      s = .pulses (r.takeWhile Char.isDigit) ∧ n = 8 + (r.takeWhile Char.isDigit).length := by
  simp only [pulsesKey, many, Option.bind_eq_some_iff, dropPrefix?_eq_some]
  constructor
  · rintro ⟨r, hl, h⟩
    refine ⟨r, hl, ?_⟩
    split at h
    · cases h
    · rename_i hne
      obtain ⟨rfl, rfl⟩ := Prod.mk.inj (Option.some.inj h)
      exact ⟨hne, rfl, rfl⟩
  · rintro ⟨r, hl, hne, rfl, rfl⟩
    refine ⟨r, hl, ?_⟩
    rw [if_neg hne]
    rfl

theorem literalKey_eq_some {p l : List Char} {s s' : Signal (List Char)} {n : ℕ} :
    literalKey p s l = some (s', n) ↔ (∃ r, l = p ++ r) ∧ s' = s ∧ n = p.length := by
  simp only [literalKey, Option.bind_eq_some_iff, dropPrefix?_eq_some]
  constructor
  · rintro ⟨r, hl, h⟩
    obtain ⟨rfl, rfl⟩ := Prod.mk.inj (Option.some.inj h)
    exact ⟨⟨r, hl⟩, rfl, rfl⟩
  · rintro ⟨⟨r, hl⟩, rfl, rfl⟩
    exact ⟨r, hl, rfl⟩

/-- What is left of a run of digits that ends inside a text. -/
theorem takeWhile_append_of_length_le {p : Char → Bool} {r t : List Char}
    (h : ((r ++ t).takeWhile p).length ≤ r.length) : (r ++ t).takeWhile p = r.takeWhile p := by
  rw [List.takeWhile_append] at h ⊢
  split
  · rename_i hall
    rw [if_pos hall, List.length_append] at h
    have hnone : t.takeWhile p = [] := List.eq_nil_of_length_eq_zero (by omega)
    have hr : r.takeWhile p = r := (List.takeWhile_prefix p).eq_of_length hall
    rw [hnone, List.append_nil, hr]
  · rfl

/-- A literal in front of a text that goes on lies in front of it, where it is
not longer. -/
theorem exists_append_of_length_le {p l t r : List Char} (h : l ++ t = p ++ r)
    (hlen : p.length ≤ l.length) : ∃ r', l = p ++ r' ∧ r = r' ++ t := by
  obtain ⟨a, rfl, rfl⟩ | ⟨c, rfl, rfl⟩ := List.append_eq_append_iff.mp h
  · rw [List.length_append] at hlen
    have ha : a = [] := List.eq_nil_of_length_eq_zero (by omega)
    exact ⟨[], by rw [ha, List.append_nil, List.append_nil], by rw [ha]; rfl⟩
  · exact ⟨c, rfl, rfl⟩

theorem pulsesKey_extend {l t : List Char} {s : Signal (List Char)} {n : ℕ}
    (h : pulsesKey l = some (s, n)) : ∃ s' n', pulsesKey (l ++ t) = some (s', n') := by
  obtain ⟨r, rfl, hne, -, -⟩ := pulsesKey_eq_some.mp h
  refine ⟨_, _, pulsesKey_eq_some.mpr ⟨r ++ t, List.append_assoc _ _ _, ?_, rfl, rfl⟩⟩
  intro hnil
  rw [List.takeWhile_append] at hnil
  split at hnil
  · rw [(List.append_eq_nil_iff.mp hnil).1] at hne
    exact hne rfl
  · exact hne hnil

theorem pulsesKey_within {l t : List Char} {s : Signal (List Char)} {n : ℕ}
    (h : pulsesKey (l ++ t) = some (s, n)) :
    (pulsesKey l).map Prod.fst = some s ↔ n ≤ l.length := by
  obtain ⟨r, hl, hne, rfl, rfl⟩ := pulsesKey_eq_some.mp h
  rw [Option.map_eq_some_iff]
  constructor
  · rintro ⟨⟨s', n'⟩, hfound, heq⟩
    obtain ⟨r', rfl, -, hs', -⟩ := pulsesKey_eq_some.mp hfound
    have hdigits := Signal.pulses.inj (heq.symm.trans hs')
    have hle : (r'.takeWhile Char.isDigit).length ≤ r'.length :=
      (List.takeWhile_prefix _).length_le
    rw [hdigits, List.length_append]
    exact Nat.add_le_add_left hle 8
  · intro hle
    obtain ⟨r', rfl, rfl⟩ := exists_append_of_length_le hl (Nat.le_trans (Nat.le_add_right 8 _) hle)
    rw [List.length_append] at hle
    have hdigits := takeWhile_append_of_length_le (Nat.le_of_add_le_add_left hle)
    exact ⟨_, pulsesKey_eq_some.mpr ⟨r', rfl, hdigits ▸ hne, rfl, rfl⟩, by rw [hdigits]⟩

theorem literalKey_extend {p l t : List Char} {s s' : Signal (List Char)} {n : ℕ}
    (h : literalKey p s l = some (s', n)) : ∃ s' n', literalKey p s (l ++ t) = some (s', n') := by
  obtain ⟨⟨r, rfl⟩, -, -⟩ := literalKey_eq_some.mp h
  exact ⟨_, _, literalKey_eq_some.mpr ⟨⟨r ++ t, List.append_assoc _ _ _⟩, rfl, rfl⟩⟩

theorem literalKey_within {p l t : List Char} {s s' : Signal (List Char)} {n : ℕ}
    (h : literalKey p s (l ++ t) = some (s', n)) :
    (literalKey p s l).map Prod.fst = some s' ↔ n ≤ l.length := by
  obtain ⟨⟨r, hl⟩, rfl, rfl⟩ := literalKey_eq_some.mp h
  rw [Option.map_eq_some_iff]
  constructor
  · rintro ⟨⟨s'', n'⟩, hfound, -⟩
    obtain ⟨⟨r', rfl⟩, -, -⟩ := literalKey_eq_some.mp hfound
    rw [List.length_append]
    exact Nat.le_add_right _ _
  · intro hle
    obtain ⟨r', rfl, -⟩ := exists_append_of_length_le hl hle
    exact ⟨_, literalKey_eq_some.mpr ⟨⟨r', rfl⟩, rfl, rfl⟩, rfl⟩

theorem kind_of_keyPattern {i : Fin 3} {l : List Char} {s : Signal (List Char)} {n : ℕ}
    (h : keyPattern i l = some (s, n)) : s.kind = i := by
  match i with
  | 0 =>
    obtain ⟨r, -, -, rfl, -⟩ := pulsesKey_eq_some.mp h
    rfl
  | 1 =>
    obtain ⟨-, rfl, -⟩ := literalKey_eq_some.mp h
    rfl
  | 2 =>
    obtain ⟨-, rfl, -⟩ := literalKey_eq_some.mp h
    rfl

@[simp] theorem keyPattern_nil (i : Fin 3) : keyPattern i [] = none := by
  match i with
  | 0 | 1 | 2 => rfl

theorem keyPattern_extend {i : Fin 3} {l : List Char} {s : Signal (List Char)} {n : ℕ}
    (t : List Char) (h : keyPattern i l = some (s, n)) :
    ∃ s' n', keyPattern i (l ++ t) = some (s', n') := by
  match i with
  | 0 => exact pulsesKey_extend h
  | 1 | 2 => exact literalKey_extend h

theorem keyPattern_within {i : Fin 3} {l t : List Char} {s : Signal (List Char)} {n : ℕ}
    (h : keyPattern i (l ++ t) = some (s, n)) :
    (keyPattern i l).map Prod.fst = some s ↔ n ≤ l.length := by
  match i with
  | 0 => exact pulsesKey_within h
  | 1 | 2 => exact literalKey_within h

/-- **The keys of the serial port.** -/
def keys : Keys Char (Fin 3) (Signal (List Char)) where
  kinds := List.finRange 3
  pattern := keyPattern
  kind := Signal.kind
  sorted := List.pairwise_lt_finRange 3
  complete := List.mem_finRange
  kind_eq := kind_of_keyPattern
  nil := keyPattern_nil
  extend := keyPattern_extend
  within := keyPattern_within

/-- The searches of `Reader.read` look for the keys. -/
theorem signals_eq_read (data : List Char) : signals data = keys.read data := by
  have hpulses : keys.find 0 data = (searchPulses data).map .pulses := by
    have hmap : pulsesKey = fun l => ((l.dropPrefix? "pulses: ".toList).bind
        (many Char.isDigit)).map fun n => (Signal.pulses n, 8 + n.length) := by
      funext l
      rw [pulsesKey, Option.map_bind]
      rfl
    show (search pulsesKey data).map Prod.fst = _
    rw [hmap, search_map, Option.map_map]
    rfl
  have hliteral : ∀ (p : List Char) (s : Signal (List Char)),
      (search (literalKey p s) data).map Prod.fst = if occurs p data then some s else none := by
    intro p s
    have hmap : literalKey p s = fun l => ((l.dropPrefix? p).bind some).map
        fun _ => (s, p.length) := by
      funext l
      rw [literalKey, Option.bind_fun_some, Option.map_eq_bind]
      rfl
    rw [hmap, search_map, Option.map_map, occurs]
    cases search (fun l => (l.dropPrefix? p).bind some) data <;> rfl
  have htimeout : keys.find 1 data =
      if occurs "Watchdog timeout".toList data then some .timeout else none := hliteral _ _
  have hwait : keys.find 2 data =
      if occurs "Waiting for bitstream transfer".toList data then some .wait else none :=
    hliteral _ _
  have hread : keys.read data =
      (keys.find 0 data).toList ++ ((keys.find 1 data).toList ++ (keys.find 2 data).toList) := by
    show List.filterMap (fun i => keys.find i data) [0, 1, 2] = _
    cases h0 : keys.find 0 data <;> cases h1 : keys.find 1 data <;>
      cases h2 : keys.find 2 data <;> simp [h0, h1, h2]
  rw [hread, hpulses, htimeout, hwait, signals, List.append_assoc]
  congr 1
  · cases searchPulses data <;> rfl
  · congr 1 <;> split <;> rfl

/-! ### The literal is searched as the bytes are -/

/-- The characters of the patterns. -/
def isKeyChar (c : Char) : Bool := c.isAlphanum || c == ' ' || c == ':'

/-- The quotes a literal may have. -/
def IsQuote (quote : Char) : Prop := quote = '\'' ∨ quote = '"'

/-- A byte is shown as itself where its character is one of a pattern. Otherwise
what is shown starts with none, and cannot be the beginning of a key. -/
def Shown (shown : List Char) (c : Char) : Prop :=
  if isKeyChar c then shown = [c]
  else shown.head?.any (fun d => !isKeyChar d) = true ∧ 'p' ∉ shown ∧ 'W' ∉ shown

instance (shown : List Char) (c : Char) : Decidable (Shown shown c) := by
  unfold Shown
  infer_instance

set_option maxRecDepth 10000 in
theorem shown_fin (n : Fin 256) :
    Shown (escape '\'' (UInt8.ofNat n)) (chr (UInt8.ofNat n)) ∧
      Shown (escape '"' (UInt8.ofNat n)) (chr (UInt8.ofNat n)) := by
  revert n
  decide

theorem shown_escape {quote : Char} (hq : IsQuote quote) (b : UInt8) :
    Shown (escape quote b) (chr b) := by
  obtain ⟨hsingle, hdouble⟩ := shown_fin ⟨b.toNat, b.toNat_lt⟩
  rw [UInt8.ofNat_toNat] at hsingle hdouble
  obtain rfl | rfl := hq
  · exact hsingle
  · exact hdouble

theorem isQuote_quoteOf (data : List UInt8) : IsQuote (quoteOf data) := by
  rw [quoteOf]
  split
  · exact Or.inr rfl
  · exact Or.inl rfl

theorem not_isKeyChar_of_isQuote {quote : Char} (hq : IsQuote quote) :
    isKeyChar quote = false := by
  obtain rfl | rfl := hq <;> decide

@[simp] theorem escaped_cons (quote : Char) (b : UInt8) (data : List UInt8) :
    escaped quote (b :: data) = escape quote b ++ escaped quote data := by
  rw [escaped, List.flatMap_cons, List.append_assoc]
  rfl

/-- Behind a character of a pattern, the literal shows what follows it; otherwise
it goes on with something that is none. -/
theorem escaped_cases {quote : Char} (hq : IsQuote quote) (b : UInt8) (data : List UInt8) :
    (isKeyChar (chr b) = true ∧ escaped quote (b :: data) = chr b :: escaped quote data) ∨
      (isKeyChar (chr b) = false ∧
        ∃ c r, escaped quote (b :: data) = c :: r ∧ isKeyChar c = false) := by
  have hshown := shown_escape hq b
  rw [escaped_cons]
  rw [Shown] at hshown
  split at hshown
  · rename_i hkey
    exact Or.inl ⟨hkey, by rw [hshown]; rfl⟩
  · rename_i hkey
    refine Or.inr ⟨Bool.eq_false_iff.mpr hkey, ?_⟩
    cases hescape : escape quote b with
    | nil =>
      rw [hescape] at hshown
      cases hshown.1
    | cons c r =>
      rw [hescape] at hshown
      exact ⟨c, r ++ escaped quote data, rfl, by simpa using hshown.1⟩

/-- The digits in front of the literal's rest are those in front of the bytes. -/
theorem takeWhile_escaped {quote : Char} (hq : IsQuote quote) (data : List UInt8) :
    (escaped quote data).takeWhile Char.isDigit = (data.map chr).takeWhile Char.isDigit := by
  have hdigit : ∀ {c : Char}, isKeyChar c = false → c.isDigit = false := by
    intro c hc
    rw [isKeyChar, Char.isAlphanum] at hc
    simp_all
  induction data with
  | nil =>
    have hnot := hdigit (not_isKeyChar_of_isQuote hq)
    show [quote].takeWhile Char.isDigit = _
    rw [List.takeWhile_cons, hnot]
    rfl
  | cons b data ih =>
    obtain ⟨-, hcons⟩ | ⟨hb, c, r, hcons, hc⟩ := escaped_cases hq b data
    · rw [hcons, List.map_cons, List.takeWhile_cons, List.takeWhile_cons, ih]
    · rw [hcons, List.map_cons, List.takeWhile_cons, List.takeWhile_cons, hdigit hc, hdigit hb]
      rfl

/-- Dropping characters of a pattern from the literal's rest is dropping them from
the bytes. -/
theorem dropPrefix?_escaped {quote : Char} (hq : IsQuote quote) {p : List Char}
    (hp : p.all isKeyChar = true) {γ : Type*} {f : List Char → Option γ}
    (hf : ∀ data, f (escaped quote data) = f (data.map chr)) (data : List UInt8) :
    ((escaped quote data).dropPrefix? p).bind f = ((data.map chr).dropPrefix? p).bind f := by
  have hne : ∀ {c d : Char}, isKeyChar c = false → isKeyChar d = true → (c == d) = false := by
    intro c d hc hd
    refine beq_eq_false_iff_ne.mpr fun h => ?_
    rw [h, hd] at hc
    cases hc
  induction p generalizing data with
  | nil =>
    have hnil : ∀ l : List Char, l.dropPrefix? [] = some l := dropPrefix?_append []
    rw [hnil, hnil]
    exact hf data
  | cons d p ih =>
    rw [List.all_cons, Bool.and_eq_true] at hp
    obtain ⟨hd, hp⟩ := hp
    cases data with
    | nil =>
      show ([quote].dropPrefix? (d :: p)).bind f = _
      rw [dropPrefix?_cons, hne (not_isKeyChar_of_isQuote hq) hd]
      rfl
    | cons b data =>
      obtain ⟨-, hcons⟩ | ⟨hb, c, r, hcons, hc⟩ := escaped_cases hq b data
      · rw [hcons, List.map_cons, dropPrefix?_cons, dropPrefix?_cons]
        split
        · exact ih hp data
        · rfl
      · simp [hcons, hne hc hd, hne hb hd]

theorem keyPattern_escaped {quote : Char} (hq : IsQuote quote) (i : Fin 3) (data : List UInt8) :
    keyPattern i (escaped quote data) = keyPattern i (data.map chr) := by
  match i with
  | 0 =>
    refine dropPrefix?_escaped hq (by decide) (fun data => ?_) data
    rw [many, many, takeWhile_escaped hq]
  | 1 | 2 => exact dropPrefix?_escaped hq (by decide) (fun _ => rfl) data

theorem startsWith_keyPattern (i : Fin 3) : StartsWith (keyHead i) (keyPattern i) := by
  match i with
  | 0 | 1 | 2 => exact startsWith_dropPrefix? _

theorem ne_keyHead {c : Char} (hc : isKeyChar c = false) {i : Fin 3} : c ≠ keyHead i := by
  rintro rfl
  match i with
  | 0 | 1 | 2 => exact absurd hc (by decide)

theorem keyHead_not_mem_escape {quote : Char} (hq : IsQuote quote) {b : UInt8}
    (hb : isKeyChar (chr b) = false) (i : Fin 3) : keyHead i ∉ escape quote b := by
  have hshown := shown_escape hq b
  rw [Shown, if_neg (Bool.eq_false_iff.mp hb)] at hshown
  match i with
  | 0 => exact hshown.2.1
  | 1 | 2 => exact hshown.2.2

theorem search_keyPattern_escaped {quote : Char} (hq : IsQuote quote) (i : Fin 3)
    (data : List UInt8) :
    search (keyPattern i) (escaped quote data) = search (keyPattern i) (data.map chr) := by
  have hstart := startsWith_keyPattern i
  induction data with
  | nil => exact (search_cons (hstart.2 _ _ (ne_keyHead (not_isKeyChar_of_isQuote hq)))).trans rfl
  | cons b data ih =>
    obtain ⟨-, hcons⟩ | ⟨hb, -⟩ := escaped_cases hq b data
    · have hpattern := keyPattern_escaped hq i (b :: data)
      rw [hcons] at hpattern ⊢
      rw [List.map_cons, search, search, hpattern, ih]
      rfl
    · -- nothing of what is shown for the byte is the beginning of a key
      have hmem := keyHead_not_mem_escape hq hb i
      rw [escaped_cons, search_append_of_not_mem hstart hmem, List.map_cons,
        search_cons (hstart.2 _ _ (ne_keyHead hb)), ih]

/-- **The literal is searched with the result of the bytes.** -/
@[simp] theorem signals_strBytes (data : List UInt8) :
    signals (strBytes data) = signals (data.map chr) := by
  have hq := isQuote_quoteOf data
  rw [signals_eq_read, signals_eq_read]
  refine List.filterMap_congr fun i _ => congrArg (Option.map Prod.fst) ?_
  have hstart := startsWith_keyPattern i
  have hb : 'b' ≠ keyHead i := by
    match i with
    | 0 | 1 | 2 => decide
  show search (keyPattern i) ('b' :: quoteOf data :: escaped (quoteOf data) data) = _
  rw [search_cons (hstart.2 _ _ hb),
    search_cons (hstart.2 _ _ (ne_keyHead (not_isKeyChar_of_isQuote hq))),
    search_keyPattern_escaped hq]
  rfl

theorem readChunk_eq_read (data : List UInt8) : readChunk data = keys.read (data.map chr) := by
  rw [readChunk]
  split
  · rename_i hnil
    rw [hnil]
    rfl
  · rw [signals_strBytes, signals_eq_read]

/-! ### The keys of the messages -/

/-- The text has a capital in front, if it has anything. -/
def Opens (t : List Char) : Prop := ∀ c r, t = c :: r → c.isUpper = true

theorem isUpper_of_isDigit {c : Char} (h : c.isDigit = true) : c.isUpper = false := by
  rw [Char.isDigit_iff_toNat] at h
  have hlt : c.toNat < 'A'.toNat := Nat.lt_of_le_of_lt h.2 (by decide)
  refine decide_eq_false fun hc => ?_
  exact absurd (UInt32.le_iff_toNat_le.mp hc.1) (Nat.not_le_of_lt hlt)

/-- A key has no capital behind its first character. -/
theorem text_of_keyPattern {i : Fin 3} {l : List Char} {s : Signal (List Char)} {n : ℕ}
    (h : keyPattern i l = some (s, n)) :
    ∃ c k r, l = c :: (k ++ r) ∧ n = k.length + 1 ∧ ∀ d ∈ k, d.isUpper = false := by
  have hall : ∀ {l : List Char}, (l.all fun d => !d.isUpper) = true → ∀ d ∈ l,
      d.isUpper = false := fun h d hd => Bool.not_eq_true' _ ▸ List.all_eq_true.mp h d hd
  have hlower : ("ulses: ".toList.all fun d => !d.isUpper) = true := by decide
  match i with
  | 0 =>
    obtain ⟨r, rfl, -, -, rfl⟩ := pulsesKey_eq_some.mp h
    refine ⟨'p', "ulses: ".toList ++ r.takeWhile Char.isDigit, r.dropWhile Char.isDigit, ?_, ?_,
      fun d hd => ?_⟩
    · rw [List.append_assoc, List.takeWhile_append_dropWhile]
      rfl
    · rw [List.length_append]
      show 8 + _ = 7 + _ + 1
      omega
    · obtain hd | hd := List.mem_append.mp hd
      · exact hall hlower d hd
      · exact isUpper_of_isDigit (List.all_eq_true.mp List.all_takeWhile d hd)
  | 1 =>
    obtain ⟨⟨r, rfl⟩, -, rfl⟩ := literalKey_eq_some.mp h
    exact ⟨'W', "atchdog timeout".toList, r, rfl, rfl, hall (by decide)⟩
  | 2 =>
    obtain ⟨⟨r, rfl⟩, -, rfl⟩ := literalKey_eq_some.mp h
    exact ⟨'W', "aiting for bitstream transfer".toList, r, rfl, rfl, hall (by decide)⟩

/-- **No key goes on behind a text that is followed by a capital.** -/
theorem whole_of_opens {t : List Char} (ht : Opens t) (l : List Char) : keys.Whole l t := by
  intro l' _ hne i s n hp
  obtain ⟨c, k, r, heq, rfl, hk⟩ := text_of_keyPattern hp
  obtain ⟨c', l', rfl⟩ := List.exists_cons_of_ne_nil hne
  rw [List.length_cons]
  refine Nat.succ_le_succ (Nat.le_of_not_lt fun hlt => ?_)
  obtain ⟨a, rfl, rfl⟩ | ⟨a, rfl, -⟩ :=
    List.append_eq_append_iff.mp (List.cons.inj heq).2
  · cases a with
    | nil =>
      rw [List.append_nil] at hlt
      exact Nat.lt_irrefl _ hlt
    | cons d a =>
      have hd := hk d (List.mem_append_right _ List.mem_cons_self)
      rw [ht d (a ++ r) rfl] at hd
      cases hd
  · rw [List.length_append] at hlt
    omega

/-- Where neither of the first characters is, no key begins. -/
theorem begins_of_ne {c : Char} (hp : c ≠ 'p') (hW : c ≠ 'W') (l : List Char) :
    keys.begins (c :: l) = [] := by
  refine List.filterMap_eq_nil_iff.mpr fun i _ => ?_
  have hne : c ≠ keyHead i := by
    match i with
    | 0 => exact hp
    | 1 | 2 => exact hW
  show (keyPattern i (c :: l)).map Prod.fst = none
  rw [(startsWith_keyPattern i).2 c l hne]
  rfl

/-- The text has none of the first characters. -/
def Free (l : List Char) : Prop := 'p' ∉ l ∧ 'W' ∉ l

instance (l : List Char) : Decidable (Free l) := inferInstanceAs (Decidable (_ ∧ _))

theorem Free.append {a b : List Char} (ha : Free a) (hb : Free b) : Free (a ++ b) :=
  ⟨List.not_mem_append ha.1 hb.1, List.not_mem_append ha.2 hb.2⟩

theorem Free.subset {a b : List Char} (hb : Free b) (h : a ⊆ b) : Free a :=
  ⟨fun hp => hb.1 (h hp), fun hW => hb.2 (h hW)⟩

theorem Free.take {l : List Char} (h : Free l) (n : ℕ) : Free (l.take n) :=
  h.subset (List.take_subset n l)

theorem free_decimal (n : ℕ) : Free (decimal n) := ⟨not_mem_decimal rfl n, not_mem_decimal rfl n⟩

theorem free_signed (i : ℤ) : Free (signed i) :=
  ⟨not_mem_signed rfl (by decide) i, not_mem_signed rfl (by decide) i⟩

theorem keysIn_of_free {l : List Char} (h : Free l) (t : List Char) : keys.keysIn l t = [] := by
  induction l with
  | nil => rfl
  | cons c l ih =>
    rw [Keys.keysIn_cons, begins_of_ne (List.ne_of_not_mem_cons h.1).symm
      (List.ne_of_not_mem_cons h.2).symm, ih (h.subset (List.subset_cons_self c l))]
    rfl

/-- The kinds of the keys that begin in a text increase. -/
def Ordered (l t : List Char) : Prop :=
  (keys.keysIn l t).Pairwise fun s s' => keys.kind s < keys.kind s'

theorem ordered_nil (t : List Char) : Ordered [] t := List.Pairwise.nil

/-- A text in which only the first character may be that of a key. -/
theorem ordered_of_tail {l : List Char} (h : Free l.tail) (t : List Char) : Ordered l t := by
  cases l with
  | nil => exact ordered_nil t
  | cons c l =>
    have hrest : keys.keysIn l t = [] := keysIn_of_free h t
    simpa [Ordered, hrest] using keys.pairwise_begins _

theorem ordered_append {a b t : List Char} (ha : Free a) (h : Ordered b t) :
    Ordered (a ++ b) t := by
  simpa [Ordered, keysIn_of_free ha] using h

/-- A `p` that no `u` follows is passed over. -/
theorem ordered_cons {l t : List Char} (hu : ∀ r, l ++ t ≠ 'u' :: r) (h : Ordered l t) :
    Ordered ('p' :: l) t := by
  have hbegins : keys.begins ('p' :: (l ++ t)) = [] := by
    refine List.filterMap_eq_nil_iff.mpr fun i _ => ?_
    cases hp : keys.pattern i ('p' :: (l ++ t)) with
    | none => rfl
    | some x =>
      match i with
      | 0 =>
        obtain ⟨s, n⟩ := x
        obtain ⟨r, heq, -⟩ := pulsesKey_eq_some.mp hp
        exact absurd (List.cons.inj heq).2 (hu _)
      | 1 | 2 => cases hp
  simpa [Ordered, hbegins] using h

/-- Of two `p`, the first of them followed by an `e`, at most one begins a key,
however short the text is cut. -/
theorem ordered_take {x y z t : List Char} (hx : Free x) (hy : Free ('e' :: y)) (hz : Free z)
    (ht : Opens t) (k : ℕ) : Ordered ((x ++ 'p' :: ('e' :: y ++ 'p' :: z)).take k) t := by
  have hlast : ∀ j, Ordered (('p' :: z).take j) t := by
    intro j
    cases j with
    | zero => exact ordered_nil t
    | succ j => exact ordered_of_tail (l := 'p' :: z.take j) (hz.take j) t
  have hrest : ∀ j, Ordered (('e' :: y ++ 'p' :: z).take j) t := by
    intro j
    rw [List.take_append]
    exact ordered_append (hy.take j) (hlast _)
  have hu : ∀ j r, ('e' :: y ++ 'p' :: z).take j ++ t ≠ 'u' :: r := by
    intro j r h
    cases j with
    | zero => exact absurd (ht 'u' r h) (by decide)
    | succ j => exact absurd (List.cons.inj h).1 (by decide)
  rw [List.take_append]
  refine ordered_append (hx.take k) ?_
  cases k - x.length with
  | zero => exact ordered_nil t
  | succ j => exact ordered_cons (hu j) (hrest j)

namespace Message

/-- The text of the count, cut at its two `p`. -/
theorem text_cut {opened pulses : List Char} {o n c p : List Char}
    (hopened : opened = o ++ 'p' :: 'e' :: n) (hpulses : pulses = c ++ 'p' :: p)
    (init a start b d write e close f count newline : List Char) :
    init ++ a ++ start ++ b ++ opened ++ d ++ write ++ e ++ close ++ f ++ pulses ++ count ++
        newline =
      (init ++ a ++ start ++ b ++ o) ++ 'p' :: ('e' :: (n ++ d ++ write ++ e ++ close ++ f ++ c) ++
        'p' :: (p ++ count ++ newline)) := by
  subst hopened hpulses
  simp only [List.append_assoc, List.cons_append]

/-- What stands in the text of the count before the first `p`, between the two
and behind the second. -/
theorem text_pulses (times : FlashTimePacket) (count : ℕ) : ∃ x y z,
    times.text ++ "\r\n, pulses: ".toList ++ decimal count ++ "\r\n".toList =
      x ++ 'p' :: ('e' :: y ++ 'p' :: z) ∧ Free x ∧ Free ('e' :: y) ∧ Free z := by
  have hopen : ", open ".toList = ", o".toList ++ 'p' :: 'e' :: "n ".toList := by decide
  have hpulses : "\r\n, pulses: ".toList =
      "\r\n, ".toList ++ 'p' :: "ulses: ".toList := by decide
  have hinit : Free "FPGA Flash times (us): init ".toList := by decide
  have hstart : Free ", start ".toList := by decide
  have ho : Free ", o".toList := by decide
  have hn : Free "n ".toList := by decide
  have hwrite : Free ", write ".toList := by decide
  have hclose : Free ", close ".toList := by decide
  have hcomma : Free "\r\n, ".toList := by decide
  have hulses : Free "ulses: ".toList := by decide
  have hend : Free "\r\n".toList := by decide
  have he : Free ['e'] := by decide
  have hx := (((hinit.append (free_signed times.initTime)).append hstart).append
    (free_signed times.startTime)).append ho
  have hy := (((((hn.append (free_signed times.openTime)).append hwrite).append
    (free_signed times.writeTime)).append hclose).append
      (free_signed times.closeTime)).append hcomma
  have hz := (hulses.append (free_decimal count)).append hend
  exact ⟨_, _, _, text_cut hopen hpulses _ _ _ _ _ _ _ _ _ _ _, hx, he.append hy, hz⟩

theorem free_tail_watchdog (n m : ℕ) : Free (snprintf 64 ("Watchdog timeout, ".toList ++
    decimal n ++ " bytes received of ".toList ++ decimal m ++ "\r\n".toList)).tail := by
  have hfront : Free ", ".toList := by decide
  have hbytes : Free " bytes received of ".toList := by decide
  have hend : Free "\r\n".toList := by decide
  have hhead : Free "atchdog timeout".toList := by decide
  have hrest := (((hfront.append (free_decimal n)).append hbytes).append
    (free_decimal m)).append hend
  rw [take_watchdog]
  exact hhead.append (hrest.take 47)

/-- **No message has two keys.** -/
theorem ordered_text {t : List Char} (ht : Opens t) (m : Message) : Ordered m.text t := by
  cases m with
  | watchdogTimeout n => exact ordered_of_tail (free_tail_watchdog n bitstreamSizeLengthBytes) t
  | received us =>
    have hfront : Free "Received bitstream in ".toList := by decide
    have hend : Free " us :)\r\n".toList := by decide
    have hall := ((hfront.append (free_decimal (us % 2 ^ 32).toNat)).append hend).take 63
    exact ordered_of_tail (hall.subset (List.tail_subset _)) t
  | pulses times count =>
    obtain ⟨x, y, z, htext, hx, hy, hz⟩ := text_pulses times count
    have htake := ordered_take hx hy hz ht 127
    rw [← htext] at htake
    exact htake
  | usbConnected => exact ordered_of_tail (by decide) t
  | usbReconnected => exact ordered_of_tail (by decide) t
  | usbDisconnected => exact ordered_of_tail (by decide) t
  | waiting => exact ordered_of_tail (by decide) t
  | transferStarted => exact ordered_of_tail (by decide) t
  | receiving => exact ordered_of_tail (by decide) t
  | flashing => exact ordered_of_tail (by decide) t
  | idle => exact ordered_of_tail (by decide) t

end Message

/-! ### The bytes of the messages -/

/-- The numbers of the characters are those of bytes. -/
def OneByte (l : List Char) : Prop := ∀ c ∈ l, c.toNat < 256

instance (l : List Char) : Decidable (OneByte l) :=
  decidable_of_iff ((l.all fun c => decide (c.toNat < 256)) = true) <| by
    simp only [List.all_eq_true, decide_eq_true_eq, OneByte]

theorem OneByte.append {a b : List Char} (ha : OneByte a) (hb : OneByte b) : OneByte (a ++ b) :=
  fun c hc => (List.mem_append.mp hc).elim (ha c) (hb c)

theorem OneByte.take {l : List Char} (h : OneByte l) (n : ℕ) : OneByte (l.take n) :=
  fun c hc => h c (List.mem_of_mem_take hc)

theorem oneByte_decimal (n : ℕ) : OneByte (decimal n) := by
  intro c hc
  have hle := (Char.isDigit_iff_toNat.mp (digit_of_mem_decimal hc)).2
  exact Nat.lt_of_le_of_lt hle (by decide)

theorem oneByte_signed (i : ℤ) : OneByte (signed i) := by
  have hminus : OneByte ['-'] := by decide
  rw [signed]
  split
  · exact hminus.append (oneByte_decimal _)
  · exact oneByte_decimal _

/-- A character of one byte is that of its byte. -/
theorem chr_byte {c : Char} (h : c.toNat < 256) : chr (byte c) = c := by
  rw [chr, byte, UInt8.toNat_ofNat_of_lt' h, Char.ofNat_toNat]

theorem map_chr_byte {l : List Char} (h : OneByte l) : (l.map byte).map chr = l := by
  rw [List.map_map]
  exact (List.map_congr_left fun c hc => chr_byte (h c hc)).trans (List.map_id l)

theorem oneByte_times (t : FlashTimePacket) : OneByte t.text := by
  have hinit : OneByte "FPGA Flash times (us): init ".toList := by decide
  have hstart : OneByte ", start ".toList := by decide
  have hopen : OneByte ", open ".toList := by decide
  have hwrite : OneByte ", write ".toList := by decide
  have hclose : OneByte ", close ".toList := by decide
  exact ((((((((hinit.append (oneByte_signed _)).append hstart).append (oneByte_signed _)).append
    hopen).append (oneByte_signed _)).append hwrite).append (oneByte_signed _)).append
    hclose).append (oneByte_signed _)

namespace Message

/-- What a message puts on the wire. -/
def bytes (m : Message) : List UInt8 := m.text.map byte

theorem oneByte_text (m : Message) : OneByte m.text := by
  have hend : OneByte "\r\n".toList := by decide
  cases m with
  | watchdogTimeout n =>
    have hfront : OneByte "Watchdog timeout, ".toList := by decide
    have hbytes : OneByte " bytes received of ".toList := by decide
    exact ((((hfront.append (oneByte_decimal n)).append hbytes).append
      (oneByte_decimal _)).append hend).take _
  | received us =>
    have hfront : OneByte "Received bitstream in ".toList := by decide
    have hus : OneByte " us :)\r\n".toList := by decide
    exact ((hfront.append (oneByte_decimal _)).append hus).take _
  | pulses times count =>
    have hpulses : OneByte "\r\n, pulses: ".toList := by decide
    exact
      ((((oneByte_times times).append hpulses).append (oneByte_decimal count)).append hend).take _
  | usbConnected => decide
  | usbReconnected => decide
  | usbDisconnected => decide
  | waiting => decide
  | transferStarted => decide
  | receiving => decide
  | flashing => decide
  | idle => decide

/-- A message begins with a capital. -/
theorem exists_text (m : Message) : ∃ c l, m.text = c :: l ∧ c.isUpper = true := by
  cases m with
  | watchdogTimeout n => exact ⟨'W', _, take_watchdog n bitstreamSizeLengthBytes, rfl⟩
  | received us => exact ⟨'R', _, rfl, rfl⟩
  | pulses times count => exact ⟨'F', _, rfl, rfl⟩
  | usbConnected => exact ⟨'U', _, rfl, rfl⟩
  | usbReconnected => exact ⟨'U', _, rfl, rfl⟩
  | usbDisconnected => exact ⟨'U', _, rfl, rfl⟩
  | waiting => exact ⟨'W', _, rfl, rfl⟩
  | transferStarted => exact ⟨'B', _, rfl, rfl⟩
  | receiving => exact ⟨'R', _, rfl, rfl⟩
  | flashing => exact ⟨'F', _, rfl, rfl⟩
  | idle => exact ⟨'I', _, rfl, rfl⟩

/-- **A message read as one chunk** leads to its keys, whatever messages follow. -/
theorem readChunk_bytes {t : List Char} (ht : Opens t) (m : Message) :
    readChunk m.bytes = keys.keysIn m.text t := by
  rw [readChunk_eq_read, bytes, map_chr_byte m.oneByte_text, Keys.read_eq_keysIn_iff]
  exact ⟨whole_of_opens ht m.text, ordered_text ht m⟩

end Message

theorem opens_flatMap_text (messages : List Message) : Opens (messages.flatMap Message.text) := by
  intro c r h
  cases messages with
  | nil => cases h
  | cons m messages =>
    obtain ⟨d, l, htext, hd⟩ := m.exists_text
    rw [List.flatMap_cons, htext] at h
    rw [← (List.cons.inj h).1]
    exact hd

/-- **Message by message, the keys of the stream are read.** -/
theorem flatMap_readChunk_bytes (messages : List Message) :
    messages.flatMap (fun m => readChunk m.bytes) =
      keys.keysIn (messages.flatMap Message.text) [] := by
  induction messages with
  | nil => rfl
  | cons m messages ih =>
    rw [List.flatMap_cons, List.flatMap_cons, Keys.keysIn_append, List.append_nil, ih,
      m.readChunk_bytes (opens_flatMap_text messages)]

/-! ### Every way of cutting the stream -/

/-- The text of some chunks is that of the messages they are cut from. -/
theorem flatten_map_chr {messages : List Message} {chunks : List (List UInt8)}
    (h : chunks.flatten = messages.flatMap Message.bytes) :
    (chunks.map (List.map chr)).flatten = messages.flatMap Message.text := by
  rw [← List.map_flatten, h, List.map_flatMap]
  exact List.flatMap_congr fun m _ => map_chr_byte m.oneByte_text

/-- **The exact condition.** However the bytes of the messages are cut into the
chunks that are read, the reader goes through the sections it goes through for
the messages, one by one, if and only if every key ends in the chunk it begins in
and the keys that begin in one chunk are of increasing kinds: a count, a timeout,
an announcement. -/
theorem flatMap_readChunk_iff_apart (messages : List Message) (chunks : List (List UInt8))
    (h : chunks.flatten = messages.flatMap Message.bytes) :
    chunks.flatMap readChunk = messages.flatMap (fun m => readChunk m.bytes) ↔
      keys.Apart (chunks.map (List.map chr)) := by
  have hread : chunks.flatMap readChunk = (chunks.map (List.map chr)).flatMap keys.read := by
    rw [List.flatMap_map]
    exact List.flatMap_congr fun data _ => readChunk_eq_read data
  rw [flatMap_readChunk_bytes, hread, ← flatten_map_chr h]
  exact Keys.read_eq_iff _

/-- The announcement, cut behind its first letter. -/
theorem cutWaiting_iff_apart :
    [Message.waiting.bytes.take 1, Message.waiting.bytes.drop 1].flatMap readChunk =
        [Message.waiting].flatMap (fun m => readChunk m.bytes) ↔
      keys.Apart
        ([Message.waiting.bytes.take 1, Message.waiting.bytes.drop 1].map (List.map chr)) :=
  flatMap_readChunk_iff_apart [.waiting]
    [Message.waiting.bytes.take 1, Message.waiting.bytes.drop 1]
    (by decide)

/-- A count of 42. -/
def pulses42 : Message := .pulses ⟨1, 2, 3, 4, 5⟩ 42

/-- **A count cut between its digits is read as another count.** -/
theorem pulses42_truncated :
    [pulses42.bytes.take 77, pulses42.bytes.drop 77].flatten = [pulses42].flatMap Message.bytes ∧
      [pulses42].flatMap (fun m => readChunk m.bytes) = [.pulses ['4', '2']] ∧
      [pulses42.bytes.take 77, pulses42.bytes.drop 77].flatMap readChunk = [.pulses ['4']] ∧
      [pulses42.bytes.take 77, pulses42.bytes.drop 77].flatMap readChunk ≠
        [pulses42].flatMap (fun m => readChunk m.bytes) := by
  decide

end UsbipIce.PulseCount
