import Mathlib.Data.List.Infix
import UsbipIce.Lib.Regex
import UsbipIce.PulseCount.Firmware

/-!
# The bus id in a device path

`get_busid` looks for two expressions in the path of a device. The first is meant
for what the user space reports of a file, where interfaces lie below the device:
it takes the *second* directory below the root hub. The second is meant for what
the kernel reports of the device itself, and takes the only directory below the
root hub.

A device on a root hub of number `b` behind the ports `p₁`, …, `pₙ` lies in `n`
directories, one for each beginning of this chain, and only the last of them is the
device (`UsbipIce.Utils.UsbDevice`). Where the chain has one port, the second
directory is the interface, which has the name of the device in front of its colon.
Where it has two, it is the device. Where it has three or more, it is a hub on the
way (`UsbipIce.Utils.UsbDevice.getBusid_kernelPath`), and where `b` has two digits
nothing is found (`UsbipIce.Utils.UsbDevice.getBusid_kernelPath_of_ten_le`).
-/

namespace UsbipIce.Utils

open Lib Lib.Pattern PulseCount

/-! ### `get_busid` -/

/-- `.` -/
def isAny (c : Char) : Bool := c != '\n'

/-- `[0-9]|\.` -/
def isDotted (c : Char) : Bool := c.isDigit || c == '.'

/-- `$`: the end, or a newline there. -/
def endOfText : Pattern Char Unit := fun l => if l = [] ∨ l = ['\n'] then [((), l)] else []

/-- `/usb[0-9]/` and what follows. -/
def rootHub {β : Type*} (P : Pattern Char β) : Pattern Char β :=
  andThen (literal "/usb".toList) fun _ => andThen (one Char.isDigit) fun _ =>
    andThen (literal "/".toList) fun _ => P

/-- `[:/]|$` -/
def delimiter : Pattern Char Unit :=
  orElse (andThen (one fun c => c == ':' || c == '/') fun _ => done ()) endOfText

/-- `(.*?)([:/]|$)` -/
def untilDelimiter : Pattern Char (List Char) :=
  andThen (lazyMany isAny) fun group => andThen delimiter fun _ => done group

/-- `.*?/(.*?)([:/]|$)` -/
def secondDirectory : Pattern Char (List Char) :=
  andThen (lazyMany isAny) fun _ => andThen (literal "/".toList) fun _ => untilDelimiter

/-- `([0-9]-(?:[0-9]|\.)+)$` -/
def onlyDirectory : Pattern Char (List Char) :=
  andThen (one Char.isDigit) fun bus => andThen (literal "-".toList) fun _ =>
    andThen (greedySome isDotted) fun ports => andThen endOfText fun _ =>
      done (bus :: '-' :: ports)

/-- **`get_busid`**: the user format, and where it is not found the kernel format. -/
def getBusid (devPath : List Char) : Option (List Char) :=
  (searchValue (rootHub secondDirectory) devPath).or
    (searchValue (rootHub onlyDirectory) devPath)

/-! ### The paths of a device -/

/-- The directory of a root hub with one digit. -/
def rootHubOf (digit : Char) : List Char := ['/', 'u', 's', 'b', digit, '/']

/-- A device on the root hub `bus` of a host controller, behind the ports
`port :: ports`. -/
structure UsbDevice where
  /-- The path of the host controller. -/
  controller : List Char
  bus : ℕ
  port : ℕ
  ports : List ℕ
  /-- No directory on the way to the controller is a root hub. -/
  noRootHub : ∀ d : Char, d.isDigit = true → ¬rootHubOf d <:+: controller ++ ['/']

namespace UsbDevice

variable (d : UsbDevice)

/-- The name of what is behind the ports `d.port :: ports`. -/
def name (ports : List ℕ) : List Char :=
  decimal d.bus ++ '-' :: (decimal d.port ++ ports.flatMap fun p => '.' :: decimal p)

/-- The bus id of the device. -/
def busid : List Char := d.name d.ports

/-- A directory for each beginning of the chain of ports. -/
def directories : List Char := d.ports.inits.flatMap fun ports => '/' :: d.name ports

/-- The path the kernel gives of the device. -/
def kernelPath : List Char :=
  d.controller ++ ("/usb".toList ++ decimal d.bus ++ d.directories)

/-- The path of a file below the interface `i` of the configuration `c`. -/
def userPath (c i : ℕ) (file : List Char) : List Char :=
  d.kernelPath ++ '/' :: (d.busid ++ ':' :: (decimal c ++ '.' :: (decimal i ++ '/' :: file)))

end UsbDevice

/-! ### Where a root hub is -/

section RootHub

variable {β : Type*} {P : Pattern Char β} {l r : List Char}

/-- Behind a root hub with one digit, the rest is matched. -/
theorem first_rootHub {c : Char} (hc : c.isDigit = true) :
    first (rootHub P) (rootHubOf c ++ r) = first P r := by
  have hone : one Char.isDigit (c :: '/' :: r) = [(c, '/' :: r)] := if_pos hc
  have husb : rootHubOf c ++ r = "/usb".toList ++ c :: '/' :: r := rfl
  rw [first, rootHub, husb, literal_andThen, andThen, hone, List.flatMap_singleton]
  exact congrArg List.head? (literal_andThen _ "/".toList r)

theorem rootHub_eq_none (h : ∀ c : Char, c.isDigit = true → ¬rootHubOf c <+: l) :
    first (rootHub P) l = none := by
  by_cases husb : "/usb".toList <+: l
  · obtain ⟨r, rfl⟩ := husb
    rw [first, rootHub, literal_andThen]
    cases r with
    | nil => rfl
    | cons c r =>
      by_cases hc : c.isDigit = true
      · have hone : one Char.isDigit (c :: r) = [(c, r)] := if_pos hc
        have hslash : ¬"/".toList <+: r := by
          rintro ⟨r, rfl⟩
          exact h c hc ⟨r, rfl⟩
        rw [andThen, hone, List.flatMap_singleton, literal_andThen_eq_nil _ hslash]
        rfl
      · have hone : one Char.isDigit (c :: r) = [] := if_neg hc
        rw [andThen, hone]
        rfl
  · rw [first, rootHub, literal_andThen_eq_nil _ husb]
    rfl

/-- A text without a `u` has no root hub. -/
theorem search_rootHub_eq_none (h : 'u' ∉ l) : search (first (rootHub P)) l = none := by
  have hnone : ∀ a, a <:+ l → first (rootHub P) a = none := by
    intro a ha
    refine rootHub_eq_none fun c _ hc => h (ha.subset (hc.subset ?_))
    exact List.mem_cons_of_mem _ List.mem_cons_self
  rw [← List.append_nil l, search_append fun c t ht => ?_]
  · exact hnone [] (List.nil_suffix)
  · rw [List.append_nil]
    exact hnone _ ht

/-- **The way to the controller is passed over.** -/
@[simp] theorem search_controller (d : UsbDevice) (r : List Char) :
    search (first (rootHub P)) (d.controller ++ '/' :: r) =
      search (first (rootHub P)) ('/' :: r) := by
  refine search_append fun c t ht => rootHub_eq_none fun digit hdigit hhub => ?_
  obtain ⟨rfl, hrest⟩ := List.cons_prefix_cons.mp hhub
  have hm : '/' ∉ ['u', 's', 'b', digit] := by
    have hne : '/' ≠ digit := by
      rintro rfl
      cases hdigit
    simp [hne]
  have hend : rootHubOf digit <+: '/' :: t ++ ['/'] :=
    List.cons_prefix_cons.mpr ⟨rfl, prefix_of_separator hm hrest⟩
  refine d.noRootHub digit hdigit (hend.isInfix.trans (List.IsSuffix.isInfix ?_))
  obtain ⟨s, hs⟩ := ht
  exact ⟨s, by rw [← List.append_assoc, hs]⟩

end RootHub

/-! ### The directories below a root hub -/

/-- A character of a bus id. -/
def isNameChar (c : Char) : Bool := isDotted c || c == '-'

/-- A bus id ends here. -/
def Ends (l : List Char) : Prop := ∀ c t, l = c :: t → c = ':' ∨ c = '/'

theorem isAny_of_isNameChar {c : Char} (h : isNameChar c = true) : isAny c = true := by
  rw [isAny, bne_iff_ne]
  rintro rfl
  cases h

theorem ne_of_isNameChar {c : Char} (h : isNameChar c = true) : c ≠ ':' ∧ c ≠ '/' ∧ c ≠ '\n' := by
  refine ⟨?_, ?_, ?_⟩ <;> rintro rfl <;> cases h

theorem not_mem_of_isNameChar {l : List Char} (hl : ∀ c ∈ l, isNameChar c = true) {c : Char}
    (hc : isNameChar c = false) : c ∉ l := fun h => Bool.false_ne_true (hc.symm.trans (hl c h))

/-- Before the end of a bus id there is no delimiter. -/
theorem delimiter_eq_nil {c : Char} (h : isNameChar c = true) (l : List Char) :
    delimiter (c :: l) = [] := by
  obtain ⟨hcolon, hslash, hnewline⟩ := ne_of_isNameChar h
  have hone : one (fun c => c == ':' || c == '/') (c :: l) = [] :=
    if_neg (by simp [hcolon, hslash])
  have hend : endOfText (c :: l) = [] := if_neg (by simp [hnewline])
  rw [delimiter, orElse, andThen, hone, hend]
  rfl

/-- There is one where it ends. -/
theorem first_delimiter {l : List Char} (h : Ends l) : ∃ r, first delimiter l = some ((), r) := by
  cases l with
  | nil => exact ⟨[], rfl⟩
  | cons c l =>
    have hc : (c == ':' || c == '/') = true := by simpa using h c l rfl
    have hone : one (fun c => c == ':' || c == '/') (c :: l) = [(c, l)] := if_pos hc
    refine ⟨l, ?_⟩
    rw [first, delimiter, orElse, andThen, hone]
    rfl

theorem first_untilDelimiter {y z : List Char} (hy : ∀ c ∈ y, isNameChar c = true) (hz : Ends z) :
    ∃ r, first untilDelimiter (y ++ z) = some (y, r) := by
  obtain ⟨r, hr⟩ := first_delimiter hz
  refine ⟨r, first_lazyMany (fun c hc => isAny_of_isNameChar (hy c hc)) ?_ ?_⟩
  · rintro y₁ y₂ rfl hne
    obtain ⟨c, y₂, rfl⟩ := List.exists_cons_of_ne_nil hne
    have hc : isNameChar c = true := hy c (List.mem_append_right _ List.mem_cons_self)
    rw [List.cons_append, first, andThen, delimiter_eq_nil hc]
    rfl
  · exact first_andThen_of_head hr rfl

/-- **The user format takes the second directory.** -/
theorem first_secondDirectory {x y z : List Char} (hx : ∀ c ∈ x, isNameChar c = true)
    (hy : ∀ c ∈ y, isNameChar c = true) (hz : Ends z) :
    ∃ r, first secondDirectory (x ++ '/' :: (y ++ z)) = some (y, r) := by
  obtain ⟨r, hr⟩ := first_untilDelimiter hy hz
  refine ⟨r, first_lazyMany (fun c hc => isAny_of_isNameChar (hx c hc)) ?_ ?_⟩
  · rintro x₁ x₂ rfl hne
    obtain ⟨c, x₂, rfl⟩ := List.exists_cons_of_ne_nil hne
    have hc : isNameChar c = true := hx c (List.mem_append_right _ List.mem_cons_self)
    have hslash : ¬"/".toList <+: c :: x₂ ++ '/' :: (y ++ z) :=
      fun h => (ne_of_isNameChar hc).2.1 (List.cons_prefix_cons.mp h).1.symm
    rw [first, literal_andThen_eq_nil _ hslash]
    rfl
  · rw [first]
    exact (congrArg List.head? (literal_andThen _ "/".toList (y ++ z))).trans hr

theorem first_secondDirectory_eq_none {x : List Char} (hx : '/' ∉ x) :
    first secondDirectory x = none := by
  refine first_lazyMany_eq_none fun a b hab _ => ?_
  have hslash : ¬"/".toList <+: b := by
    rintro ⟨b, rfl⟩
    refine hx (hab ▸ List.mem_append_right a ?_)
    exact List.mem_cons_self
  rw [first, literal_andThen_eq_nil _ hslash]
  rfl

/-- The kernel format takes the only directory. -/
theorem first_onlyDirectory {c : Char} {ports : List Char} (hc : c.isDigit = true)
    (hne : ports ≠ []) (hports : ∀ c ∈ ports, isDotted c = true) :
    first onlyDirectory (c :: '-' :: ports) = some (c :: '-' :: ports, []) := by
  have hone : one Char.isDigit (c :: '-' :: ports) = [(c, '-' :: ports)] := if_pos hc
  have hgreedy := head?_greedySome hne hports (b := []) (fun _ _ h => nomatch h)
  rw [List.append_nil] at hgreedy
  rw [first, onlyDirectory, andThen, hone, List.flatMap_singleton]
  refine (congrArg List.head? (literal_andThen _ "-".toList ports)).trans ?_
  exact first_andThen_of_head hgreedy rfl

/-! ### The names of a device -/

theorem exists_cons_cons {α : Type*} {l : List α} (h : 1 < l.length) :
    ∃ a b t, l = a :: b :: t := by
  obtain ⟨a, l, rfl⟩ := List.exists_cons_of_length_pos (Nat.zero_lt_of_lt h)
  obtain ⟨b, l, rfl⟩ := List.exists_cons_of_length_pos (Nat.lt_of_succ_lt_succ h)
  exact ⟨a, b, l, rfl⟩

theorem isDotted_of_mem_decimal {n : ℕ} {c : Char} (h : c ∈ decimal n) : isDotted c = true := by
  rw [isDotted, digit_of_mem_decimal h]
  rfl

namespace UsbDevice

variable (d : UsbDevice) {ports : List ℕ}

theorem isDotted_of_mem {c : Char}
    (h : c ∈ decimal d.port ++ ports.flatMap fun p => '.' :: decimal p) :
    isDotted c = true := by
  rcases List.mem_append.mp h with h | h
  · exact isDotted_of_mem_decimal h
  · obtain ⟨p, -, h⟩ := List.mem_flatMap.mp h
    rcases List.mem_cons.mp h with rfl | h
    · rfl
    · exact isDotted_of_mem_decimal h

theorem isNameChar_of_mem_name (ports : List ℕ) {c : Char} (h : c ∈ d.name ports) :
    isNameChar c = true := by
  rw [isNameChar]
  rcases List.mem_append.mp h with h | h
  · rw [isDotted_of_mem_decimal h]
    rfl
  · rcases List.mem_cons.mp h with rfl | h
    · rfl
    · rw [d.isDotted_of_mem h]
      rfl

/-- Behind a port that is not the last of the chain lies another name. -/
theorem length_name_lt (p : ℕ) (hne : ports ≠ []) :
    (d.name [p]).length < (d.name (p :: ports)).length := by
  obtain ⟨q, ports, rfl⟩ := List.exists_cons_of_ne_nil hne
  simp only [name, List.flatMap_cons, List.flatMap_nil, List.length_append, List.length_cons,
    List.length_nil]
  omega

/-! ### The directories of a device -/

theorem ends_flatMap {ι : Type*} (g : ι → List Char) (l : List ι) {s : List Char} (hs : Ends s) :
    Ends (l.flatMap (fun x => '/' :: g x) ++ s) := by
  cases l with
  | nil => exact hs
  | cons x l =>
    intro c t hc
    exact Or.inr (List.head_eq_of_cons_eq hc).symm

theorem directories_of_nil (h : d.ports = []) (s : List Char) :
    d.directories ++ s = '/' :: (d.name [] ++ s) := by
  rw [directories, h]
  exact congrArg (· ++ s) (List.append_nil _)

/-- The first directory is the device behind the first port, the second the one
behind the first two. -/
theorem directories_of_cons {p : ℕ} (h : d.ports = p :: ports) {s : List Char} (hs : Ends s) :
    ∃ r, Ends r ∧ d.directories ++ s = '/' :: (d.name [] ++ '/' :: (d.name [p] ++ r)) := by
  obtain ⟨deeper, hdeeper⟩ : ∃ deeper, ports.inits = [] :: deeper := by
    cases ports with
    | nil => exact ⟨[], rfl⟩
    | cons q ports => exact ⟨_, List.inits_cons q ports⟩
  refine ⟨_, ends_flatMap (fun ports => d.name ports) (deeper.map (p :: ·)) hs, ?_⟩
  rw [directories, h, List.inits_cons, hdeeper]
  simp only [List.map_cons, List.flatMap_cons, List.cons_append, List.append_assoc]

theorem not_mem_directories : 'u' ∉ d.directories := by
  intro h
  obtain ⟨ports, -, h⟩ := List.mem_flatMap.mp h
  rcases List.mem_cons.mp h with h | h
  · revert h
    decide
  · have hu := d.isNameChar_of_mem_name ports h
    revert hu
    decide

/-! ### What is found in the paths -/

/-- The digit of a root hub that has one. -/
theorem decimal_of_lt (h : d.bus < 10) : decimal d.bus = [d.bus.digitChar] :=
  Nat.toDigits_of_lt_base h

theorem isDigit_of_lt (h : d.bus < 10) : d.bus.digitChar.isDigit = true := by
  refine digit_of_mem_decimal (n := d.bus) ?_
  rw [d.decimal_of_lt h]
  exact List.mem_cons_self

theorem kernelPath_of_lt (h : d.bus < 10) {r s : List Char} (hr : d.directories ++ s = '/' :: r) :
    d.kernelPath ++ s = d.controller ++ (rootHubOf d.bus.digitChar ++ r) := by
  rw [kernelPath, d.decimal_of_lt h, List.append_assoc, List.append_assoc, hr]
  rfl

/-- With one digit of the bus, what the expressions take below the root hub is
found. -/
theorem searchValue_of_lt {β : Type*} {P : Pattern Char β} (h : d.bus < 10) {r : List Char}
    {v : β × List Char} (hP : first P r = some v) :
    searchValue (rootHub P) (d.controller ++ (rootHubOf d.bus.digitChar ++ r)) = some v.1 := by
  have hfound := search_of_some ((first_rootHub (d.isDigit_of_lt h)).trans hP)
  rw [searchValue]
  exact congrArg (Option.map Prod.fst) ((search_controller d _).trans hfound)

/-- Where nothing is found at the root hub, nothing is found below it. -/
theorem searchValue_eq_none {β : Type*} {P : Pattern Char β} {r : List Char} (hr : 'u' ∉ r)
    (hP : first (rootHub P) ("/usb".toList ++ r) = none) :
    searchValue (rootHub P) (d.controller ++ ("/usb".toList ++ r)) = none := by
  have husb : ∀ c : Char, c.isDigit = true → ¬rootHubOf c <+: "usb".toList ++ r := by
    intro c _ h
    have hslash := (List.cons_prefix_cons.mp h).1
    revert hslash
    decide
  have hrest : 'u' ∉ "sb".toList ++ r := List.not_mem_append (by decide) hr
  rw [searchValue, Option.map_eq_none_iff]
  calc search (first (rootHub P)) (d.controller ++ ("/usb".toList ++ r))
      = search (first (rootHub P)) ("/usb".toList ++ r) := search_controller d ("usb".toList ++ r)
    _ = search (first (rootHub P)) ("usb".toList ++ r) := search_cons hP
    _ = search (first (rootHub P)) ("sb".toList ++ r) := search_cons (rootHub_eq_none husb)
    _ = none := search_rootHub_eq_none hrest

/-- **With two digits of the bus, nothing is found.** -/
theorem getBusid_kernelPath_of_ten_le (h : 10 ≤ d.bus) : getBusid d.kernelPath = none := by
  have hu : 'u' ∉ decimal d.bus ++ d.directories :=
    List.not_mem_append (not_mem_decimal rfl d.bus) d.not_mem_directories
  have hhub : ∀ c : Char, c.isDigit = true →
      ¬rootHubOf c <+: "/usb".toList ++ (decimal d.bus ++ d.directories) := by
    intro c _ hprefix
    -- behind the first digit there is a digit, and no slash
    have hrest : [c, '/'] <+: decimal d.bus ++ d.directories :=
      (List.prefix_append_right_inj "/usb".toList).mp hprefix
    have hlen : 1 < (decimal d.bus).length := by
      rw [← not_le, decimal, Nat.length_toDigits_le_iff (by decide) (by decide)]
      omega
    obtain ⟨a, b, l, hdecimal⟩ := exists_cons_cons hlen
    have hb : b.isDigit = true := by
      refine digit_of_mem_decimal (n := d.bus) ?_
      rw [hdecimal]
      exact List.mem_cons_of_mem _ List.mem_cons_self
    rw [hdecimal] at hrest
    obtain ⟨-, hrest⟩ := List.cons_prefix_cons.mp hrest
    obtain ⟨rfl, -⟩ := List.cons_prefix_cons.mp hrest
    cases hb
  rw [getBusid, kernelPath, List.append_assoc,
    d.searchValue_eq_none hu (rootHub_eq_none hhub),
    d.searchValue_eq_none hu (rootHub_eq_none hhub)]
  rfl

/-- **Behind two ports or more, the second directory is taken**, whatever follows. -/
theorem getBusid_of_cons (h : d.bus < 10) {p : ℕ} (hports : d.ports = p :: ports)
    {s : List Char} (hs : Ends s) : getBusid (d.kernelPath ++ s) = some (d.name [p]) := by
  obtain ⟨r, hr, hdirectories⟩ := d.directories_of_cons hports hs
  obtain ⟨t, ht⟩ := first_secondDirectory (fun c => d.isNameChar_of_mem_name [])
    (fun c => d.isNameChar_of_mem_name [p]) hr
  rw [getBusid, d.kernelPath_of_lt h hdirectories, d.searchValue_of_lt h ht]
  rfl

/-- Behind one port, the second directory of a file is the interface. -/
theorem getBusid_userPath_of_nil (h : d.bus < 10) (hports : d.ports = []) (c i : ℕ)
    (file : List Char) : getBusid (d.userPath c i file) = some d.busid := by
  have hends : Ends (':' :: (decimal c ++ '.' :: (decimal i ++ '/' :: file))) :=
    fun c t hc => Or.inl (List.head_eq_of_cons_eq hc).symm
  obtain ⟨t, ht⟩ := first_secondDirectory (fun c => d.isNameChar_of_mem_name [])
    (fun c => d.isNameChar_of_mem_name []) hends
  rw [getBusid, userPath, busid, hports,
    d.kernelPath_of_lt h (d.directories_of_nil hports _), d.searchValue_of_lt h ht]
  rfl

/-- Behind one port, the path of the kernel has one directory. -/
theorem getBusid_kernelPath_of_nil (h : d.bus < 10) (hports : d.ports = []) :
    getBusid d.kernelPath = some d.busid := by
  have hpath := d.kernelPath_of_lt h (d.directories_of_nil hports [])
  rw [List.append_nil, List.append_nil] at hpath
  have hslash : '/' ∉ d.name [] :=
    not_mem_of_isNameChar (fun c => d.isNameChar_of_mem_name []) rfl
  have hu : 'u' ∉ d.bus.digitChar :: '/' :: d.name [] := by
    have hdecimal := not_mem_decimal (c := 'u') rfl d.bus
    rw [d.decimal_of_lt h] at hdecimal
    have hname : 'u' ∉ d.name [] := not_mem_of_isNameChar (fun c => d.isNameChar_of_mem_name []) rfl
    exact List.not_mem_append hdecimal
      (List.not_mem_cons_of_ne_of_not_mem (by decide) hname)
  have huser : searchValue (rootHub secondDirectory)
      (d.controller ++ (rootHubOf d.bus.digitChar ++ d.name [])) = none :=
    d.searchValue_eq_none hu
      ((first_rootHub (d.isDigit_of_lt h)).trans (first_secondDirectory_eq_none hslash))
  have hname : d.name [] = d.bus.digitChar :: '-' :: decimal d.port := by
    rw [name, d.decimal_of_lt h, List.flatMap_nil, List.append_nil]
    rfl
  have honly := first_onlyDirectory (d.isDigit_of_lt h) Nat.toDigits_ne_nil
    (fun c hc => isDotted_of_mem_decimal (n := d.port) hc)
  rw [← decimal, ← hname] at honly
  rw [getBusid, hpath, huser, d.searchValue_of_lt h honly, busid, hports]
  rfl

/-- **With one digit of the bus, the device behind the first two ports is found**,
in the path of the kernel and in that of a file. -/
theorem getBusid_kernelPath (h : d.bus < 10) :
    getBusid d.kernelPath = some (d.name (d.ports.take 1)) := by
  cases hports : d.ports with
  | nil =>
    rw [d.getBusid_kernelPath_of_nil h hports, busid, hports]
    rfl
  | cons p ports =>
    rw [← List.append_nil d.kernelPath]
    exact d.getBusid_of_cons h hports fun _ _ hnil => nomatch hnil

theorem getBusid_userPath (h : d.bus < 10) (c i : ℕ) (file : List Char) :
    getBusid (d.userPath c i file) = some (d.name (d.ports.take 1)) := by
  cases hports : d.ports with
  | nil =>
    rw [d.getBusid_userPath_of_nil h hports, busid, hports]
    rfl
  | cons p ports =>
    exact d.getBusid_of_cons h hports fun _ _ hslash =>
      Or.inr (List.head_eq_of_cons_eq hslash).symm

@[simp] theorem name_take_eq_busid : d.name (d.ports.take 1) = d.busid ↔ d.ports.length ≤ 1 := by
  constructor
  · intro heq
    by_contra hlong
    obtain ⟨p, q, ports, hports⟩ := exists_cons_cons (Nat.lt_of_not_le hlong)
    rw [busid, hports] at heq
    have hlt := d.length_name_lt p (List.cons_ne_nil q ports)
    exact absurd (congrArg List.length heq) (Nat.ne_of_lt hlt)
  · intro hshort
    rw [List.take_of_length_le hshort, busid]

end UsbDevice

/-! ### The bus id of an add and of a remove -/

/-- **Both paths lead to the bus id of the device exactly where the number of the
bus has one digit and the device lies behind at most two ports.** -/
theorem getBusid_iff (d : UsbDevice) (c i : ℕ) (file : List Char) :
    getBusid (d.userPath c i file) = some d.busid ∧ getBusid d.kernelPath = some d.busid ↔
      d.bus < 10 ∧ d.ports.length ≤ 1 := by
  rcases Nat.lt_or_ge d.bus 10 with hbus | hbus
  · rw [d.getBusid_userPath hbus, d.getBusid_kernelPath hbus, and_self, Option.some_inj,
      d.name_take_eq_busid]
    exact ⟨fun hshort => ⟨hbus, hshort⟩, And.right⟩
  · constructor
    · rintro ⟨-, hkernel⟩
      rw [d.getBusid_kernelPath_of_ten_le hbus] at hkernel
      cases hkernel
    · rintro ⟨hlt, -⟩
      exact absurd hlt (Nat.not_lt.mpr hbus)

/-- A device behind three ports. -/
def thirdPort : UsbDevice where
  controller := "/devices/pci0000:00/0000:00:14.0".toList
  bus := 1
  port := 2
  ports := [3, 4]
  noRootHub := fun d _ h => by
    have hu : 'u' ∈ "/devices/pci0000:00/0000:00:14.0".toList ++ ['/'] :=
      h.subset (List.mem_cons_of_mem _ List.mem_cons_self)
    revert hu
    decide

/-- **A hub is taken for the device behind it.** -/
theorem hub_for_device :
    getBusid thirdPort.kernelPath = some "1-2.3".toList ∧
      getBusid (thirdPort.userPath 1 0 "tty/ttyACM0".toList) = some "1-2.3".toList ∧
      thirdPort.busid = "1-2.3.4".toList := by
  decide

/-- What `handleAdd` remembers as the bus id. -/
def handleAdd (busid : Option (List Char)) (devPath : Option (List Char)) : Option (List Char) :=
  match devPath.bind getBusid with
  | some (c :: id) => some (c :: id)
  | some [] | none => busid

/-- Whether `handleKernel` reports a disconnection. -/
def handleKernel (busid : Option (List Char)) (event : String) (devPath : Option (List Char)) :
    Bool :=
  match devPath.bind getBusid with
  | some (c :: id) => event == "remove" && busid == some (c :: id)
  | some [] | none => false

/-- **The removal of a device is noticed behind any number of ports**, since what is
compared are the two ids that are found; not where its bus has two digits. -/
theorem handleKernel_of_handleAdd (d : UsbDevice) (busid : Option (List Char)) (c i : ℕ)
    (file : List Char) :
    handleKernel (handleAdd busid (some (d.userPath c i file))) "remove" (some d.kernelPath) =
      true ↔ d.bus < 10 := by
  rcases Nat.lt_or_ge d.bus 10 with hbus | hbus
  · have hne :
        d.name (d.ports.take 1) ≠ [] := List.append_ne_nil_of_left_ne_nil Nat.toDigits_ne_nil _
    obtain ⟨x, id, hid⟩ := List.exists_cons_of_ne_nil hne
    have huser : (some (d.userPath c i file)).bind getBusid = some (x :: id) :=
      (d.getBusid_userPath hbus c i file).trans (congrArg some hid)
    have hkernel : (some d.kernelPath).bind getBusid = some (x :: id) :=
      (d.getBusid_kernelPath hbus).trans (congrArg some hid)
    simp only [handleKernel, handleAdd, huser, hkernel, beq_self_eq_true, Bool.and_self, hbus]
  · have hkernel : (some d.kernelPath).bind getBusid = none :=
      d.getBusid_kernelPath_of_ten_le hbus
    simp only [handleKernel, hkernel, Bool.false_eq_true, false_iff]
    exact Nat.not_lt.mpr hbus

end UsbipIce.Utils
