import UsbipIce.Lib.Collect
import UsbipIce.PulseCount.Chunks
import UsbipIce.Utils.Busid

/-!
# What `usbip port` lists

`usbip_port` reads the connections of a host out of what the command `usbip port`
prints. It searches `str` of the bytes, which is their literal
(`UsbipIce.PulseCount.strBytes`): a newline is shown as a backslash and an `n`, so
nothing in the text stops a `.`, and an expression may run on into what is printed
of another connection.

It does not. Behind `usbip://` the lazy part stops at the first digits with a minus
behind them, which are those of the bus, and the greedy part behind the minus stops
where the bus id ends (`UsbipIce.Utils.Connection.matched_text`). The literal shows
`usbip://` nowhere that the bytes do not have it, and shows no digit and no period
where they have none (`UsbipIce.Utils.not_infix_shown`,
`UsbipIce.Utils.isDotted_head_shown`). So the matches are the connections, one after
the other, and the dictionary has their bus ids under their hosts
(`UsbipIce.Utils.usbipPort_stdout`).
-/

namespace UsbipIce.Utils

open Lib Lib.Pattern PulseCount

/-! ### `usbip_port` -/

/-- `usbip://` -/
def scheme : List Char := "usbip://".toList

/-- `usbip://.*?[0-9]+-(?:[0-9]|\.)+` -/
def connectionFormat : Pattern Char Unit :=
  andThen (literal scheme) fun _ => andThen (lazyMany isAny) fun _ =>
    andThen (greedySome Char.isDigit) fun _ => andThen (literal "-".toList) fun _ =>
      andThen (greedySome isDotted) fun _ => done ()

/-- `usbip://(.*?):` -/
def ipFormat : Pattern Char (List Char) :=
  andThen (literal scheme) fun _ => andThen (lazyMany isAny) fun group =>
    andThen (literal ":".toList) fun _ => done group

/-- `:[0-9]+/(.*)` -/
def busFormat : Pattern Char (List Char) :=
  andThen (literal ":".toList) fun _ => andThen (greedySome Char.isDigit) fun _ =>
    andThen (literal "/".toList) fun _ => greedyMany isAny

/-- The bus ids of some hosts. -/
abbrev PortInfo := Table (List Char × List (List Char)) Prod.fst

/-- What `usbip_port` returns: `False`, `None`, or the dictionary. -/
inductive PortResult where
  | failed
  | unread
  | info (info : PortInfo)

/-- A round of the loop; it returns where one of the searches finds nothing. -/
def addConnection (info : PortInfo) (c : List Char) : Option PortInfo :=
  match searchValue ipFormat c, searchValue busFormat c with
  | some ip, some bus => some (info.append ip bus)
  | _, _ => none

/-- **`usbip_port`**, of what the command has printed, unless it has failed. -/
def usbipPort (stdout : Option (List UInt8)) : PortResult :=
  match stdout with
  | none => .failed
  | some stdout =>
    match (findAll (matched connectionFormat) (strBytes stdout)).foldlM addConnection ∅ with
    | none => .unread
    | some info => .info info

/-! ### What the command prints -/

/-- The bytes of a text that is not part of a connection. -/
structure Filler where
  bytes : List UInt8
  noScheme : ¬scheme.map byte <:+: bytes

/-- A connection, to be printed as `usbip://host:port/busid`. -/
structure Connection where
  host : List Char
  port : List Char
  bus : List Char
  path : List Char
  host_dotted : ∀ c ∈ host, isDotted c = true
  port_digits : ∀ c ∈ port, c.isDigit = true
  port_ne_nil : port ≠ []
  bus_digits : ∀ c ∈ bus, c.isDigit = true
  bus_ne_nil : bus ≠ []
  path_dotted : ∀ c ∈ path, isDotted c = true
  path_ne_nil : path ≠ []

/-- A connection and the text behind it, which goes on in another line: at any
rate, the bus id does not go on. -/
structure Entry extends Connection where
  rest : Filler
  ends : ∀ b t, rest.bytes = b :: t → isDotted (chr b) = false

namespace Connection

variable (c : Connection)

def busid : List Char := c.bus ++ '-' :: c.path

/-- What stands between the scheme and the bus id. -/
def address : List Char := c.host ++ ':' :: c.port ++ ['/']

def text : List Char := scheme ++ (c.address ++ c.busid)

theorem text_ne_nil : c.text ≠ [] := List.append_ne_nil_of_left_ne_nil (by decide) _

end Connection

/-- What is printed: some text, and the connections with the text behind each. -/
def stdout (text : Filler) (entries : List Entry) : List UInt8 :=
  text.bytes ++ entries.flatMap fun e => e.text.map byte ++ e.rest.bytes

/-- The bus ids of a host, in the order they are printed. -/
def busesOf (entries : List Entry) (host : List Char) : List (List Char) :=
  (entries.filter fun e => e.host = host).map fun e => e.busid

/-! ### A connection is read -/

theorem isAny_of_isDotted {c : Char} (h : isDotted c = true) : isAny c = true :=
  isAny_of_isNameChar (by rw [isNameChar, h]; rfl)

theorem isDotted_of_isDigit {c : Char} (h : c.isDigit = true) : isDotted c = true := by
  rw [isDotted, h]
  rfl

namespace Connection

variable (c : Connection) {l : List Char}

theorem isDotted_of_mem_address {x : Char} (h : x ∈ c.address) :
    isDotted x = true ∨ x = ':' ∨ x = '/' := by
  rcases List.mem_append.mp h with h | h
  · rcases List.mem_append.mp h with h | h
    · exact Or.inl (c.host_dotted x h)
    · rcases List.mem_cons.mp h with rfl | h
      · exact Or.inr (Or.inl rfl)
      · exact Or.inl (isDotted_of_isDigit (c.port_digits x h))
  · exact Or.inr (Or.inr (List.mem_singleton.mp h))

theorem isAny_of_mem_address {x : Char} (h : x ∈ c.address) : isAny x = true := by
  rcases c.isDotted_of_mem_address h with h | rfl | rfl
  · exact isAny_of_isDotted h
  · rfl
  · rfl

theorem isAny_of_mem_busid {x : Char} (h : x ∈ c.busid) : isAny x = true := by
  rcases List.mem_append.mp h with h | h
  · exact isAny_of_isDotted (isDotted_of_isDigit (c.bus_digits x h))
  · rcases List.mem_cons.mp h with rfl | h
    · rfl
    · exact isAny_of_isDotted (c.path_dotted x h)

theorem minus_not_mem_address : '-' ∉ c.address := by
  intro h
  rcases c.isDotted_of_mem_address h with h | h | h <;> revert h <;> decide

/-- In front of the slash, no digits have a minus behind them. -/
theorem no_minus {a t x y : List Char} (hx : ∀ d ∈ x, d.isDigit = true) (ha : '-' ∉ a) :
    x ++ '-' :: y ≠ a ++ '/' :: t := by
  intro h
  rcases List.append_eq_append_iff.mp h with ⟨z, rfl, hz⟩ | ⟨z, rfl, hz⟩
  · cases z with
    | nil => cases hz
    | cons d z =>
      obtain ⟨rfl, -⟩ := List.cons.inj hz
      exact ha (List.mem_append_right _ List.mem_cons_self)
  · cases z with
    | nil => cases hz
    | cons d z =>
      obtain ⟨rfl, -⟩ := List.cons.inj hz
      exact absurd (hx '/' (List.mem_append_right _ List.mem_cons_self)) (by decide)

/-- **The match of a connection is the connection**, where the bus id does not go
on. -/
theorem matched_text (hl : ∀ x t, l = x :: t → isDotted x = false) :
    matched connectionFormat (c.text ++ l) = some (c.text, c.text.length) := by
  have hpath := head?_greedySome c.path_ne_nil c.path_dotted hl
  have hbus := head?_greedySome (b := '-' :: (c.path ++ l)) c.bus_ne_nil c.bus_digits
    fun x t h => by rw [← List.head_eq_of_cons_eq h]; rfl
  have hbusid : c.busid ++ l = c.bus ++ '-' :: (c.path ++ l) := by
    rw [busid, List.append_assoc]
    rfl
  have htext : c.text ++ l = scheme ++ (c.address ++ (c.busid ++ l)) := by
    rw [text, List.append_assoc, List.append_assoc]
  refine first_matched (v := ()) ?_
  rw [htext, first, connectionFormat, literal_andThen]
  refine first_lazyMany (fun x => c.isAny_of_mem_address) ?_ ?_
  · -- behind a part of the address the slash comes before the minus
    intro a₁ a₂ heq hne
    refine first_andThen_eq_none fun r hr => ?_
    obtain ⟨-, happ, hdigits⟩ := of_mem_greedySome hr
    have hminus : ¬"-".toList <+: r.2 := by
      rintro ⟨y, hy⟩
      obtain ⟨a, x, rfl⟩ := List.eq_nil_or_concat' a₂ |>.resolve_left hne
      obtain ⟨hfront, hslash⟩ := List.append_inj' (heq.trans (List.append_assoc a₁ a [x]).symm) rfl
      obtain rfl := List.singleton_inj.mp hslash
      rw [List.append_assoc, ← hy] at happ
      refine no_minus hdigits (fun ha => c.minus_not_mem_address ?_) happ
      exact List.mem_append_left _ (hfront ▸ List.mem_append_right a₁ ha)
    rw [first, literal_andThen_eq_nil _ hminus]
    rfl
  · rw [hbusid]
    refine first_andThen_of_head hbus ?_
    rw [first]
    refine (congrArg List.head? (literal_andThen _ "-".toList (c.path ++ l))).trans ?_
    exact first_andThen_of_head hpath rfl

/-! ### What is taken from it -/

@[simp] theorem searchValue_ipFormat : searchValue ipFormat c.text = some c.host := by
  have hcolon : ':' ∉ c.host := fun h => absurd (c.host_dotted ':' h) (by decide)
  have htext : c.text = scheme ++ (c.host ++ ':' :: (c.port ++ '/' :: c.busid)) := by
    rw [text, address, List.append_assoc, List.append_assoc]
    rfl
  have hfound : first ipFormat c.text = some (c.host, c.port ++ '/' :: c.busid) := by
    rw [htext, first, ipFormat, literal_andThen]
    refine first_lazyMany (fun x hx => isAny_of_isDotted (c.host_dotted x hx)) ?_ ?_
    · intro a₁ a₂ heq hne
      obtain ⟨x, a₂, rfl⟩ := List.exists_cons_of_ne_nil hne
      have hliteral : ¬":".toList <+: x :: a₂ ++ ':' :: (c.port ++ '/' :: c.busid) := by
        intro h
        obtain ⟨rfl, -⟩ := List.cons_prefix_cons.mp h
        exact hcolon (heq ▸ List.mem_append_right a₁ List.mem_cons_self)
      rw [first, literal_andThen_eq_nil _ hliteral]
      rfl
    · rw [first]
      exact congrArg List.head? (literal_andThen _ ":".toList (c.port ++ '/' :: c.busid))
  rw [searchValue, search_of_some hfound]
  rfl

@[simp] theorem searchValue_busFormat : searchValue busFormat c.text = some c.busid := by
  have hstart : StartsWith ':' (first busFormat) := startsWith_literal _ []
  have htext : c.text =
      "usbip".toList ++ ':' :: ("//".toList ++ c.host ++ ':' :: (c.port ++ '/' :: c.busid)) := by
    rw [text, address, List.append_assoc, List.append_assoc]
    rfl
  have hcolon : ':' ∉ "//".toList ++ c.host :=
    List.not_mem_append (by decide) fun h => absurd (c.host_dotted ':' h) (by decide)
  -- behind the colon of the scheme there is no digit
  have hscheme : first busFormat
      (':' :: ("//".toList ++ c.host ++ ':' :: (c.port ++ '/' :: c.busid))) = none := by
    refine (congrArg List.head? (literal_andThen _ ":".toList _)).trans ?_
    refine first_andThen_eq_none fun r hr => ?_
    obtain ⟨hne, happ, hdigits⟩ := of_mem_greedySome hr
    obtain ⟨x, a, ha⟩ := List.exists_cons_of_ne_nil hne
    rw [ha] at happ hdigits
    have hslash : x = '/' := List.head_eq_of_cons_eq happ
    exact absurd (hslash ▸ hdigits x List.mem_cons_self) (by decide)
  have hport := head?_greedySome (b := '/' :: c.busid) c.port_ne_nil c.port_digits
    fun x t h => by rw [← List.head_eq_of_cons_eq h]; rfl
  have hbusid := head?_greedyMany (b := []) (fun x => c.isAny_of_mem_busid) (fun _ _ h => nomatch h)
  rw [List.append_nil] at hbusid
  have hfound : first busFormat (':' :: (c.port ++ '/' :: c.busid)) = some (c.busid, []) := by
    refine (congrArg List.head? (literal_andThen _ ":".toList (c.port ++ '/' :: c.busid))).trans ?_
    refine first_andThen_of_head hport ?_
    exact (congrArg List.head? (literal_andThen _ "/".toList c.busid)).trans hbusid
  rw [searchValue, htext, search_append_of_not_mem hstart (by decide), search_cons hscheme,
    search_append_of_not_mem hstart hcolon, search_of_some hfound]
  rfl

end Connection

/-! ### What the literal shows -/

/-- A character of a connection. -/
def isUrlChar (c : Char) : Bool := isDotted c || "usbip:/-".toList.contains c

/-- A byte is shown as itself where it may belong to a connection. Otherwise what
is shown starts with no such character, and cannot be the beginning of the
scheme. -/
def ShownUrl (shown : List Char) (c : Char) : Prop :=
  if isUrlChar c then shown = [c]
  else shown.head?.any (fun d => !isUrlChar d) = true ∧ 'u' ∉ shown

instance (shown : List Char) (c : Char) : Decidable (ShownUrl shown c) := by
  unfold ShownUrl
  infer_instance

set_option maxRecDepth 10000 in
theorem shownUrl_fin (n : Fin 256) :
    ShownUrl (escape '\'' (UInt8.ofNat n)) (chr (UInt8.ofNat n)) ∧
      ShownUrl (escape '"' (UInt8.ofNat n)) (chr (UInt8.ofNat n)) := by
  revert n
  decide

variable {quote : Char}

theorem shownUrl_escape (hq : IsQuote quote) (b : UInt8) :
    ShownUrl (escape quote b) (chr b) := by
  obtain ⟨hsingle, hdouble⟩ := shownUrl_fin ⟨b.toNat, b.toNat_lt⟩
  rw [UInt8.ofNat_toNat] at hsingle hdouble
  obtain rfl | rfl := hq
  · exact hsingle
  · exact hdouble

theorem escape_of_isUrlChar (hq : IsQuote quote) {b : UInt8} (hb : isUrlChar (chr b) = true) :
    escape quote b = [chr b] := by
  have hshown := shownUrl_escape hq b
  rwa [ShownUrl, if_pos hb] at hshown

theorem escape_of_not_isUrlChar (hq : IsQuote quote) {b : UInt8}
    (hb : isUrlChar (chr b) = false) :
    (∃ d t, escape quote b = d :: t ∧ isUrlChar d = false) ∧ 'u' ∉ escape quote b := by
  have hshown := shownUrl_escape hq b
  rw [ShownUrl, if_neg (Bool.eq_false_iff.mp hb)] at hshown
  refine ⟨?_, hshown.2⟩
  cases hescape : escape quote b with
  | nil =>
    rw [hescape] at hshown
    cases hshown.1
  | cons d t =>
    rw [hescape] at hshown
    exact ⟨d, t, rfl, by simpa using hshown.1⟩

theorem oneByte_of_isUrlChar {c : Char} (h : isUrlChar c = true) : c.toNat < 256 := by
  rw [isUrlChar, isDotted, Bool.or_eq_true, Bool.or_eq_true] at h
  rcases h with (h | h) | h
  · exact Nat.lt_of_le_of_lt (Char.isDigit_iff_toNat.mp h).2 (by decide)
  · rw [eq_of_beq h]
    decide
  · have hall : OneByte "usbip:/-".toList := by decide
    exact hall c (List.contains_iff_mem.mp h)

theorem isUrlChar_of_mem_scheme : ∀ c ∈ scheme, isUrlChar c = true := by
  rw [← List.all_eq_true]
  decide

/-- **A connection is shown as it is.** -/
theorem flatMap_escape_map (hq : IsQuote quote) {l : List Char}
    (hl : ∀ c ∈ l, isUrlChar c = true) : (l.map byte).flatMap (escape quote) = l := by
  induction l with
  | nil => rfl
  | cons c l ih =>
    obtain ⟨hc, hl⟩ := List.forall_mem_cons.mp hl
    have hbyte := chr_byte (oneByte_of_isUrlChar hc)
    have hescape : escape quote (byte c) = [chr (byte c)] :=
      escape_of_isUrlChar hq (by rw [hbyte, hc])
    rw [List.map_cons, List.flatMap_cons, ih hl, hescape, hbyte]
    rfl

@[simp] theorem byte_chr (b : UInt8) : byte (chr b) = b := by
  have hvalid : b.toNat.isValidChar := Or.inl (Nat.lt_trans b.toNat_lt (by decide))
  have hnat : (Char.ofNat b.toNat).toNat = b.toNat := by
    rw [Char.ofNat, dif_pos hvalid]
    rfl
  rw [byte, chr, hnat, UInt8.ofNat_toNat]

/-- What is shown at the beginning is at the beginning of the bytes. -/
theorem prefix_of_prefix_shown (hq : IsQuote quote) {p : List Char} {data : List UInt8}
    (hp : ∀ c ∈ p, isUrlChar c = true) (h : p <+: data.flatMap (escape quote)) :
    p.map byte <+: data := by
  induction p generalizing data with
  | nil => exact List.nil_prefix
  | cons c p ih =>
    obtain ⟨hc, htail⟩ := List.forall_mem_cons.mp hp
    cases data with
    | nil => exact absurd (List.prefix_nil.mp h) (List.cons_ne_nil c p)
    | cons b data =>
      rw [List.flatMap_cons] at h
      cases hb : isUrlChar (chr b) with
      | true =>
        rw [escape_of_isUrlChar hq hb] at h
        obtain ⟨rfl, hrest⟩ := List.cons_prefix_cons.mp h
        rw [List.map_cons, byte_chr]
        exact List.cons_prefix_cons.mpr ⟨rfl, ih htail hrest⟩
      | false =>
        obtain ⟨⟨d, t, hescape, hd⟩, -⟩ := escape_of_not_isUrlChar hq hb
        rw [hescape] at h
        obtain ⟨rfl, -⟩ := List.cons_prefix_cons.mp h
        rw [hc] at hd
        cases hd

/-- **The literal shows the scheme only where the bytes have it.** -/
theorem infix_of_infix_shown (hq : IsQuote quote) {data : List UInt8}
    (h : scheme <:+: data.flatMap (escape quote)) : scheme.map byte <:+: data := by
  induction data with
  | nil => exact absurd (List.infix_nil.mp h) (by decide)
  | cons b data ih =>
    rw [List.flatMap_cons] at h
    cases hb : isUrlChar (chr b) with
    | true =>
      rw [escape_of_isUrlChar hq hb] at h
      rcases List.infix_cons_iff.mp h with h | h
      · refine (prefix_of_prefix_shown hq isUrlChar_of_mem_scheme ?_).isInfix
        rw [List.flatMap_cons, escape_of_isUrlChar hq hb]
        exact h
      · exact (ih h).trans (List.suffix_cons b data).isInfix
    | false =>
      have hu := (escape_of_not_isUrlChar hq hb).2
      exact (ih (infix_of_not_mem hu h)).trans (List.suffix_cons b data).isInfix

/-- It shows no digit and no period where the bytes have none. -/
theorem isDotted_head_shown (hq : IsQuote quote) {data : List UInt8} {l : List Char}
    (hdata : ∀ b t, data = b :: t → isDotted (chr b) = false)
    (hl : ∀ x t, l = x :: t → isDotted x = false) :
    ∀ x t, data.flatMap (escape quote) ++ l = x :: t → isDotted x = false := by
  intro x t h
  cases data with
  | nil => exact hl x t h
  | cons b data =>
    rw [List.flatMap_cons] at h
    cases hb : isUrlChar (chr b) with
    | true =>
      rw [escape_of_isUrlChar hq hb] at h
      rw [← List.head_eq_of_cons_eq h]
      exact hdata b data rfl
    | false =>
      obtain ⟨⟨d, s, hescape, hd⟩, -⟩ := escape_of_not_isUrlChar hq hb
      rw [hescape] at h
      rw [← List.head_eq_of_cons_eq h]
      exact (Bool.or_eq_false_iff.mp hd).1

/-! ### The connections, one after the other -/

theorem matched_eq_none {l : List Char} (h : ¬scheme <+: l) :
    matched connectionFormat l = none := by
  rw [matched, first, connectionFormat, literal_andThen_eq_nil _ h]
  rfl

/-- What the literal shows behind the first text. -/
def shownEntries (quote : Char) (entries : List Entry) : List Char :=
  entries.flatMap (fun e => e.text ++ e.rest.bytes.flatMap (escape quote)) ++ [quote]

@[simp] theorem shownEntries_cons (e : Entry) (entries : List Entry) :
    shownEntries quote (e :: entries) =
      e.text ++ (e.rest.bytes.flatMap (escape quote) ++ shownEntries quote entries) := by
  rw [shownEntries, List.flatMap_cons, List.append_assoc, List.append_assoc]
  rfl

theorem exists_shownEntries (hq : IsQuote quote) (entries : List Entry) :
    ∃ d r, shownEntries quote entries = d :: r ∧ d ∉ scheme.tail ∧ isDotted d = false := by
  cases entries with
  | nil =>
    refine ⟨quote, [], rfl, ?_⟩
    obtain rfl | rfl := hq <;> decide
  | cons e entries =>
    rw [shownEntries_cons]
    exact ⟨'u', _, rfl, by decide, by decide⟩

/-- A text is passed over. -/
theorem findAll_filler (hq : IsQuote quote) (text : Filler) (entries : List Entry) :
    findAll (matched connectionFormat)
        (text.bytes.flatMap (escape quote) ++ shownEntries quote entries) =
      findAll (matched connectionFormat) (shownEntries quote entries) := by
  obtain ⟨d, r, hshown, hd, -⟩ := exists_shownEntries hq entries
  refine findAll_append fun c t ht => matched_eq_none fun hprefix => text.noScheme ?_
  rw [hshown] at hprefix
  have hwithin : scheme <+: c :: t :=
    prefix_of_not_mem_tail (List.cons_ne_nil c t) hd hprefix
  exact infix_of_infix_shown hq (hwithin.isInfix.trans ht.isInfix)

/-- **The matches are the connections.** -/
theorem findAll_shownEntries (hq : IsQuote quote) (entries : List Entry) :
    findAll (matched connectionFormat) (shownEntries quote entries) =
      entries.map fun e => e.text := by
  induction entries with
  | nil =>
    have hquote : ¬scheme <+: [quote] := by obtain rfl | rfl := hq <;> decide
    show findAllFrom _ 0 [quote] = []
    rw [findAllFrom, matched_eq_none hquote]
    rfl
  | cons e entries ih =>
    obtain ⟨d, r, hshown, -, hd⟩ := exists_shownEntries hq entries
    have hends := isDotted_head_shown hq e.ends (l := shownEntries quote entries)
      fun x t h => by rw [hshown] at h; rw [← List.head_eq_of_cons_eq h, hd]
    rw [shownEntries_cons, findAll_match e.text_ne_nil (e.matched_text hends),
      findAll_filler hq, ih]
    rfl

theorem isUrlChar_of_mem_text (c : Connection) {x : Char} (h : x ∈ c.text) :
    isUrlChar x = true := by
  have hdotted : ∀ {x : Char}, isDotted x = true → isUrlChar x = true := by
    intro x hx
    rw [isUrlChar, hx]
    rfl
  rcases List.mem_append.mp h with h | h
  · exact isUrlChar_of_mem_scheme x h
  · rcases List.mem_append.mp h with h | h
    · rcases c.isDotted_of_mem_address h with h | rfl | rfl
      · exact hdotted h
      · rfl
      · rfl
    · rcases List.mem_append.mp h with h | h
      · exact hdotted (isDotted_of_isDigit (c.bus_digits x h))
      · rcases List.mem_cons.mp h with rfl | h
        · rfl
        · exact hdotted (c.path_dotted x h)

theorem escaped_stdout (hq : IsQuote quote) (text : Filler) (entries : List Entry) :
    escaped quote (stdout text entries) =
      text.bytes.flatMap (escape quote) ++ shownEntries quote entries := by
  have hentries : ∀ e ∈ entries, (e.text.map byte ++ e.rest.bytes).flatMap (escape quote) =
      e.text ++ e.rest.bytes.flatMap (escape quote) := by
    intro e _
    rw [List.flatMap_append, flatMap_escape_map hq fun x => isUrlChar_of_mem_text e.toConnection]
  rw [escaped, stdout, List.flatMap_append, List.flatMap_assoc, List.flatMap_congr hentries,
    List.append_assoc]
  rfl

/-! ### The dictionary -/

@[simp] theorem addConnection_text (info : PortInfo) (c : Connection) :
    addConnection info c.text = some (info.append c.host c.busid) := by
  simp [addConnection]

@[simp] theorem foldlM_addConnection (entries : List Entry) (info : PortInfo) :
    (entries.map fun e => e.text).foldlM addConnection info =
      some ((entries.map fun e => (e.host, e.busid)).foldl (fun t p => t.append p.1 p.2) info) := by
  induction entries generalizing info with
  | nil => rfl
  | cons e entries ih =>
    simpa using ih _

/-- **What is read is what is printed**: under every host its bus ids in their
order, and nothing else. -/
theorem usbipPort_stdout (text : Filler) (entries : List Entry) :
    ∃ info, usbipPort (some (stdout text entries)) = .info info ∧
      ∀ host buses, (host, buses) ∈ info ↔ buses = busesOf entries host ∧ buses ≠ [] := by
  have hq := isQuote_quoteOf (stdout text entries)
  -- the literal begins with a letter and a quote
  have hopen : ∀ c t, (c :: t) <:+ ['b', quoteOf (stdout text entries)] →
      ∀ r, ¬scheme <+: c :: t ++ r := by
    intro c t ht r hprefix
    have hc : c ∈ ['b', quoteOf (stdout text entries)] := ht.subset List.mem_cons_self
    obtain ⟨rfl, -⟩ := List.cons_prefix_cons.mp hprefix
    revert hc
    obtain hq | hq := hq <;> rw [hq] <;> decide
  have hstr : strBytes (stdout text entries) = ['b', quoteOf (stdout text entries)] ++
      (text.bytes.flatMap (escape (quoteOf (stdout text entries))) ++
        shownEntries (quoteOf (stdout text entries)) entries) := by
    rw [strBytes, escaped_stdout hq]
    rfl
  have hfound : findAll (matched connectionFormat) (strBytes (stdout text entries)) =
      entries.map fun e => e.text := by
    rw [hstr, findAll_append fun c t ht => matched_eq_none (hopen c t ht _), findAll_filler hq,
      findAll_shownEntries hq]
  have hbuses : ∀ host, ((entries.map fun e => (e.host, e.busid)).filter fun q => q.1 = host).map
      Prod.snd = busesOf entries host := by
    intro host
    rw [List.filter_map, List.map_map]
    rfl
  refine ⟨Table.appendAll (entries.map fun e => (e.host, e.busid)), ?_, fun host buses => ?_⟩
  · simp only [usbipPort, hfound, foldlM_addConnection]
    rfl
  · simp [hbuses]

/-! ### An output -/

/-- The line that stands above the connections. -/
def heading : Filler where
  bytes := "Imported USB devices\n".toList.map byte
  noScheme := by decide

/-- The end of a line. -/
def newline : Filler where
  bytes := [10]
  noScheme := by decide

/-- A device at a port 3240, in a line of its own. -/
def lineOf (host bus path : String) (hhost : host.toList.all isDotted = true)
    (hbus : bus.toList.all Char.isDigit = true) (hbus' : bus.toList ≠ [])
    (hpath : path.toList.all isDotted = true) (hpath' : path.toList ≠ []) : Entry where
  host := host.toList
  port := "3240".toList
  bus := bus.toList
  path := path.toList
  host_dotted := List.all_eq_true.mp hhost
  port_digits := List.all_eq_true.mp (by decide)
  port_ne_nil := by decide
  bus_digits := List.all_eq_true.mp hbus
  bus_ne_nil := hbus'
  path_dotted := List.all_eq_true.mp hpath
  path_ne_nil := hpath'
  rest := newline
  ends := by
    intro b t h
    rw [← List.head_eq_of_cons_eq h]
    rfl

/-- Two devices of one host, and one of another between them. -/
def twoHosts : List Entry :=
  [lineOf "10.0.0.4" "1" "2.3" (by decide) (by decide) (by decide) (by decide) (by decide),
    lineOf "10.0.0.5" "1" "1" (by decide) (by decide) (by decide) (by decide) (by decide),
    lineOf "10.0.0.4" "12" "4" (by decide) (by decide) (by decide) (by decide) (by decide)]

/-- Their bus ids are read, under the host of each. -/
theorem usbipPort_twoHosts :
    ∃ info, usbipPort (some (stdout heading twoHosts)) = .info info ∧
      ("10.0.0.4".toList, ["1-2.3".toList, "12-4".toList]) ∈ info ∧
      ("10.0.0.5".toList, ["1-1".toList]) ∈ info ∧ "10.0.0.6".toList ∉ info.keys := by
  obtain ⟨info, hread, hinfo⟩ := usbipPort_stdout heading twoHosts
  refine ⟨info, hread, (hinfo _ _).mpr (by decide), (hinfo _ _).mpr (by decide), fun hmem => ?_⟩
  obtain ⟨⟨host, buses⟩, hbuses, rfl⟩ := Table.mem_keys.mp hmem
  obtain ⟨rfl, hne⟩ := (hinfo _ _).mp hbuses
  exact hne (by decide)

end UsbipIce.Utils
