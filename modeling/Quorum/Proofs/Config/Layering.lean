import Mathlib
import Quorum.Config.Layering
import Quorum.Proofs.Number.Quotient
import Quorum.Proofs.Text.Encoding

/-!
# What the environment can do to a configuration

Six fields are each decided by a variable of their own (`Layered`, `layered_iff`), and no check
looks at any of them: the faults of a configuration are those of what the environment makes of it
(`faults_override`). So whether a file loads, and what is said of one that does not, is a matter of
the file alone (`Refused`), and what is loaded is valid because the file was (`load_spec`).
-/

namespace Quorum.Config

/-! ## Statements -/

/-- The number is above zero and at most one. -/
structure IsShare (x : Double) : Prop where
  isNumber : x.isNaN = false
  nonneg : x.isNegative = false
  pos : 0 < Double.valueAt x.magnitude
  le_one : Double.valueAt x.magnitude ≤ 1

/-- A configuration that a node can work with. -/
structure Valid (c : Config) : Prop where
  minPeers : 1 ≤ c.voting.minPeers
  threshold : IsShare c.voting.threshold
  maxAttempts : 1 ≤ c.endpoints.maxAttempts
  maxKnownPeers : 1 ≤ c.peering.maxKnownPeers
  maxRequests : 1 ≤ c.api.rateLimit.maxRequests
  window : 1 ≤ c.api.rateLimit.window

/-- What a configuration has to pass, in this order, and what is said if it does not. -/
def checks (c : Config) : List (Bool × ConfigError) :=
  [(c.voting.minPeers != 0, .invalid "consensus.min_peers" "must be at least 1"),
   (isThreshold c.voting.threshold, .invalid "consensus.consensus_threshold"
     (Decimal.plain.text c.voting.threshold ++ " is outside (0, 1]")),
   (c.endpoints.maxAttempts != 0, .invalid "rpc.max_failover_attempts" "must be at least 1"),
   (c.peering.maxKnownPeers != 0, .invalid "p2p.max_known_peers" "must be at least 1"),
   (c.api.rateLimit.maxRequests != 0 && c.api.rateLimit.window != 0,
     .invalid "api.rate_limit" "max_requests and window_secs must be non-zero")]

/-- All that is wrong with a configuration. -/
def faults (c : Config) : List ConfigError := (c.checks.filter fun x => !x.1).map (·.2)

/-- The text is a number of 16 bits: decimal digits, maybe behind a plus sign. -/
def IsPort (s : String) (n : Nat) : Prop :=
  n < 2 ^ 16 ∧ ∃ digits, digits ≠ [] ∧ (∀ d ∈ digits, d.isDigit = true) ∧
    (s.toList = digits ∨ s.toList = '+' :: digits) ∧ Nat.ofDigitChars 10 digits 0 = n

/-- What a variable decides: if it is set it is the new value, otherwise the old one stays. -/
structure Decided {α : Type} (set : String → α → Prop) (v : Option String) (before after : α) :
    Prop where
  given : ∀ s a, v = some s → set s a → after = a
  kept : (∀ s a, v = some s → ¬ set s a) → after = before

/-- What the environment makes of a configuration: each of six fields is decided by its own
variable, and all others stay. -/
structure Layered (e : Environment) (before after : Config) : Prop where
  port : Decided IsPort (e.get? "PORT") before.api.port after.api.port
  defaultUrl : Decided (fun s a => a = s) (e.get? "DEFAULT_RPC_URL") before.endpoints.defaultUrl
    after.endpoints.defaultUrl
  providerUrl : Decided (fun s a => a = s) (e.get? "RPC_PROVIDER_URL")
    before.endpoints.providerUrl after.endpoints.providerUrl
  registryAddress : Decided (fun s a => a = some s) (e.get? "SOVEREIGN_RPC_ADDRESS")
    before.endpoints.registryAddress after.endpoints.registryAddress
  ipfsUrl : Decided (fun s a => a = some s) (e.get? "IPFS_API_URL") before.storage.ipfsUrl
    after.storage.ipfsUrl
  backendUrl : Decided (fun s a => a = some s) (e.get? "INFERENCE_BACKEND_URL")
    before.inference.backendUrl after.inference.backendUrl
  peering : after.peering = before.peering
  voting : after.voting = before.voting
  maxAttempts : after.endpoints.maxAttempts = before.endpoints.maxAttempts
  cooldown : after.endpoints.cooldown = before.endpoints.cooldown
  enforceQuorum : after.api.enforceQuorum = before.api.enforceQuorum
  rateLimit : after.api.rateLimit = before.api.rateLimit

/-- Why a file is not loaded, whatever the environment: the first step that fails says so. -/
inductive Refused (complaint : String → String) (path : String) : File → ConfigError → Prop where
  | unread {cause : String} : Refused complaint path (.error cause) (.read path cause)
  | undecoded {bytes : Bytes} (h : ∀ text, bytes ≠ Utf8.encode text) :
      Refused complaint path (.ok bytes) (.read path "stream did not contain valid UTF-8")
  | unparsed {text : String} (h : ofYaml? text = none) :
      Refused complaint path (.ok (Utf8.encode text)) (.parse (complaint text))
  | invalid {text : String} {c : Config} {err : ConfigError} {more : List ConfigError}
      (h : ofYaml? text = some c) (hfaults : c.faults = err :: more) :
      Refused complaint path (.ok (Utf8.encode text)) err

variable {c : Config} {e : Environment} {s : String} {n : Nat} {x : Double} {path : String}
  {file : File} {err : ConfigError} {complaint : String → String}

/-! ## Validation -/

theorem valueAt_zero : Double.valueAt 0 = 0 := by
  simp [Double.valueAt, Double.sigAt]

/-- What has a rank above zero has no sign. -/
theorem rank_between_iff (x : Double) (k : Nat) : 0 < x.rank ∧ x.rank ≤ k ↔
    x.isNegative = false ∧ 0 < x.magnitude ∧ x.magnitude ≤ k := by
  unfold Double.rank
  cases x.isNegative with
  | true =>
    rw [if_pos rfl]
    refine iff_of_false (fun h => ?_) (fun h => Bool.noConfusion h.1)
    have hpos := h.1
    omega
  | false => simp

theorem isThreshold_eq (x : Double) : isThreshold x = true ↔ x.isNaN = false ∧
    0 < x.rank ∧ x.rank ≤ ((Double.ofNat 1).magnitude : Int) := by
  have hone : (Double.ofNat 1).rank = ((Double.ofNat 1).magnitude : Int) := by decide
  have hnumbers : Double.zero.isNaN = false ∧ (Double.ofNat 1).isNaN = false := by decide
  have hzero : Double.zero.rank = 0 := by decide
  simp only [isThreshold, Double.lt, Double.le, hnumbers, hone, hzero, Bool.and_eq_true,
    Bool.not_eq_true', decide_eq_true_eq, true_and, and_true]
  constructor
  · rintro ⟨⟨hnumber, hpos⟩, -, hmax⟩
    exact ⟨hnumber, hpos, hmax⟩
  · rintro ⟨hnumber, hpos, hmax⟩
    exact ⟨⟨hnumber, hpos⟩, hnumber, hmax⟩

theorem isThreshold_iff : isThreshold x = true ↔ IsShare x := by
  -- Magnitudes are ordered as the values are.
  have hone : Double.valueAt (Double.ofNat 1).magnitude = 1 := by
    exact_mod_cast Double.valueAt_ofNat (n := 1) (by norm_num)
  have hpos : 0 < Double.valueAt x.magnitude ↔ 0 < x.magnitude := by
    rw [← valueAt_zero, Double.valueAt_strictMono.lt_iff_lt]
  have hmax : Double.valueAt x.magnitude ≤ 1 ↔ x.magnitude ≤ (Double.ofNat 1).magnitude := by
    rw [← hone, Double.valueAt_strictMono.le_iff_le]
  rw [isThreshold_eq, rank_between_iff, ← hpos, ← hmax]
  constructor
  · rintro ⟨hnumber, hsign, habove, hbelow⟩
    exact ⟨hnumber, hsign, habove, hbelow⟩
  · rintro ⟨hnumber, hsign, habove, hbelow⟩
    exact ⟨hnumber, hsign, habove, hbelow⟩

theorem validate_eq (c : Config) : c.validate = match c.faults with
    | [] => .ok ()
    | err :: _ => .error err := by
  unfold validate faults checks
  -- `validate` ends at the first check that fails, so only those before it are decided.
  by_cases hmin : c.voting.minPeers = 0
  · simp [hmin]
  by_cases hthreshold : isThreshold c.voting.threshold = true
  · by_cases hattempts : c.endpoints.maxAttempts = 0
    · simp [hmin, hthreshold, hattempts]
    by_cases hknown : c.peering.maxKnownPeers = 0
    · simp [hmin, hthreshold, hattempts, hknown]
    by_cases hlimit : c.api.rateLimit.maxRequests = 0 ∨ c.api.rateLimit.window = 0
    · simp [hmin, hthreshold, hattempts, hknown, hlimit]
    · simp [hmin, hthreshold, hattempts, hknown, hlimit]
  · simp [hmin, hthreshold]

theorem faults_eq_nil_iff : c.faults = [] ↔ c.Valid := by
  unfold faults checks
  simp only [List.map_eq_nil_iff, List.filter_eq_nil_iff, List.forall_mem_cons, Bool.not_eq_true',
    Bool.not_eq_false, Bool.and_eq_true, bne_iff_ne, ← Nat.one_le_iff_ne_zero, isThreshold_iff]
  constructor
  · rintro ⟨hmin, hthreshold, hattempts, hknown, ⟨hrequests, hwindow⟩, -⟩
    exact ⟨hmin, hthreshold, hattempts, hknown, hrequests, hwindow⟩
  · rintro ⟨hmin, hthreshold, hattempts, hknown, hrequests, hwindow⟩
    exact ⟨hmin, hthreshold, hattempts, hknown, ⟨hrequests, hwindow⟩, nofun⟩

/-! ## The environment -/

/-- **No check looks at a field that the environment decides.** -/
theorem faults_override (e : Environment) (c : Config) : (c.override e).faults = c.faults := rfl

theorem override_override (e : Environment) (c : Config) :
    (c.override e).override e = c.override e := by
  have hgetD {α : Type} (v : Option α) (a : α) : v.getD (v.getD a) = v.getD a := by
    cases v <;> rfl
  have hor {α : Type} (v a : Option α) : v.or (v.or a) = v.or a := by
    cases v <;> rfl
  simp only [override, hgetD, hor]

theorem isDecimal_eq (d : Char) : IpAddress.isDecimal d = d.isDigit := by
  simp [IpAddress.isDecimal, Char.isDigit, Char.le_def]

theorem plus_notMem {digits : List Char} (h : ∀ d ∈ digits, d.isDigit = true) : '+' ∉ digits :=
  fun hmem => absurd (h _ hmem) (by decide)

/-- Nothing but digits is read, and only below the bound. -/
theorem ofDigits_eq_some_iff {bound : Nat} (digits : List Char) :
    (if digits.isEmpty || !digits.all IpAddress.isDecimal then none
      else if IpAddress.decimalValue digits < bound then some (IpAddress.decimalValue digits)
        else none) = some n ↔
    n < bound ∧ digits ≠ [] ∧ (∀ d ∈ digits, d.isDigit = true) ∧
      Nat.ofDigitChars 10 digits 0 = n := by
  have hvalue : IpAddress.decimalValue digits = Nat.ofDigitChars 10 digits 0 := rfl
  have hall : digits.all IpAddress.isDecimal = true ↔ ∀ d ∈ digits, d.isDigit = true := by
    simp only [List.all_eq_true, isDecimal_eq]
  by_cases hdigits : digits ≠ [] ∧ ∀ d ∈ digits, d.isDigit = true
  · obtain ⟨hne, hdigit⟩ := hdigits
    rw [if_neg (by simp [hne, hall.2 hdigit]), hvalue, Option.ite_none_right_eq_some,
      Option.some.injEq]
    constructor
    · rintro ⟨hlt, rfl⟩
      exact ⟨hlt, hne, hdigit, rfl⟩
    · rintro ⟨hlt, -, -, rfl⟩
      exact ⟨hlt, rfl⟩
  · have hbad : (digits.isEmpty || !digits.all IpAddress.isDecimal) = true := by
      rw [Bool.or_eq_true, Bool.not_eq_true', List.isEmpty_iff, ← Bool.not_eq_true, hall]
      tauto
    rw [if_pos hbad]
    exact iff_of_false nofun fun h => hdigits ⟨h.2.1, h.2.2.1⟩

/-- Digits are read as the number that they are, if it is below the bound. -/
theorem number?_eq_some_iff {bound : Nat} : Multiaddr.number? bound s = some n ↔
    n < bound ∧ ∃ digits, digits ≠ [] ∧ (∀ d ∈ digits, d.isDigit = true) ∧
      (s.toList = digits ∨ s.toList = '+' :: digits) ∧ Nat.ofDigitChars 10 digits 0 = n := by
  unfold Multiaddr.number?
  dsimp only
  rw [ofDigits_eq_some_iff]
  refine and_congr_right fun _ => ?_
  split
  · rename_i rest hs
    constructor
    · rintro ⟨hne, hdigit, hvalue⟩
      exact ⟨rest, hne, hdigit, .inr hs, hvalue⟩
    · rintro ⟨digits, hne, hdigit, htext | htext, hvalue⟩
      · exact absurd (htext ▸ hs ▸ List.mem_cons_self) (plus_notMem hdigit)
      · obtain rfl : rest = digits := (List.cons.inj (hs.symm.trans htext)).2
        exact ⟨hne, hdigit, hvalue⟩
  · rename_i hplus
    constructor
    · rintro ⟨hne, hdigit, hvalue⟩
      exact ⟨_, hne, hdigit, .inl rfl, hvalue⟩
    · rintro ⟨digits, hne, hdigit, htext | htext, hvalue⟩
      · exact htext ▸ ⟨hne, hdigit, hvalue⟩
      · exact absurd htext (hplus digits)

theorem port?_eq_some_iff : port? s = some n ↔ IsPort s n := number?_eq_some_iff

/-- A variable decides a field if reading it gives the value that it stands for. -/
theorem decided_iff {α : Type} {set : String → α → Prop} (read : String → Option α)
    (hread : ∀ s a, read s = some a ↔ set s a) (v : Option String) (before after : α) :
    Decided set v before after ↔ after = (v.bind read).getD before := by
  constructor
  · intro h
    cases hv : v.bind read with
    | some a =>
      obtain ⟨s, hs, ha⟩ := Option.bind_eq_some_iff.1 hv
      exact h.given s a hs ((hread s a).1 ha)
    | none =>
      refine h.kept fun s a hs hset => ?_
      rw [hs, Option.bind_some, (hread s a).2 hset] at hv
      cases hv
  · rintro rfl
    constructor
    · intro s a hs hset
      rw [hs, Option.bind_some, (hread s a).2 hset, Option.getD_some]
    · intro hunset
      have hnone : v.bind read = none := by
        rw [Option.eq_none_iff_forall_ne_some]
        intro a ha
        obtain ⟨s, hs, hsome⟩ := Option.bind_eq_some_iff.1 ha
        exact hunset s a hs ((hread s a).1 hsome)
      rw [hnone, Option.getD_none]

theorem decided_port (v : Option String) (before after : Nat) :
    Decided IsPort v before after ↔ after = (v.bind port?).getD before :=
  decided_iff port? (fun _ _ => port?_eq_some_iff) v before after

theorem decided_text (v : Option String) (before after : String) :
    Decided (fun s a => a = s) v before after ↔ after = v.getD before := by
  rw [decided_iff some (fun s a => by rw [Option.some.injEq, eq_comm]),
    Option.bind_fun_some]

theorem decided_optional (v before after : Option String) :
    Decided (fun s a => a = some s) v before after ↔ after = v.or before := by
  rw [decided_iff (fun s => some (some s)) (fun s a => by rw [Option.some.injEq, eq_comm])]
  cases v <;> rfl

/-- **The environment decides six fields and no others.** -/
theorem layered_iff (e : Environment) (before after : Config) :
    Layered e before after ↔ after = before.override e := by
  constructor
  · intro h
    obtain ⟨peering, voting, ⟨defaultUrl, providerUrl, registryAddress, maxAttempts, cooldown⟩,
      ⟨ipfsUrl⟩, ⟨backendUrl⟩, ⟨port, enforceQuorum, rateLimit⟩⟩ := after
    have hport := (decided_port _ _ _).1 h.port
    have hdefault := (decided_text _ _ _).1 h.defaultUrl
    have hprovider := (decided_text _ _ _).1 h.providerUrl
    have hregistry := (decided_optional _ _ _).1 h.registryAddress
    have hipfs := (decided_optional _ _ _).1 h.ipfsUrl
    have hbackend := (decided_optional _ _ _).1 h.backendUrl
    obtain ⟨-, -, -, -, -, -, hpeering, hvoting, hattempts, hcooldown, henforce, hlimit⟩ := h
    dsimp only at *
    rw [hport, hdefault, hprovider, hregistry, hipfs, hbackend, hpeering, hvoting, hattempts,
      hcooldown, henforce, hlimit]
    rfl
  · rintro rfl
    exact ⟨(decided_port _ _ _).2 rfl, (decided_text _ _ _).2 rfl,
      (decided_text _ _ _).2 rfl, (decided_optional _ _ _).2 rfl, (decided_optional _ _ _).2 rfl,
      (decided_optional _ _ _).2 rfl, rfl, rfl, rfl, rfl, rfl, rfl⟩

/-! ## Loading -/

theorem decode?_eq_some_iff {bytes : Bytes} {text : String} :
    Utf8.decode? bytes = some text ↔ bytes = Utf8.encode text := by
  constructor
  · intro h
    exact (Utf8.encode_of_decode? h).symm
  · rintro rfl
    rw [Utf8.encode_eq_encodeChars, Utf8.decode_encodeChars]

theorem fileText_encode (path text : String) :
    fileText path (.ok (Utf8.encode text)) = .ok text := by
  rw [fileText, decode?_eq_some_iff.2 rfl]

theorem load_encode (complaint : String → String) (path text : String) (e : Environment) :
    load complaint path (.ok (Utf8.encode text)) e = match ofYaml? text with
      | none => .error (.parse (complaint text))
      | some c =>
        match c.faults with
        | [] => .ok (c.override e)
        | err :: _ => .error err := by
  unfold load
  rw [fileText_encode]
  dsimp only
  cases ofYaml? text with
  | none => rfl
  | some c =>
    dsimp only
    rw [validate_eq, faults_override]
    cases c.faults <;> rfl

theorem load_of_valid {text : String} (h : ofYaml? text = some c) (hc : c.Valid) :
    load complaint path (.ok (Utf8.encode text)) e = .ok (c.override e) := by
  simp only [load_encode, h, faults_eq_nil_iff.2 hc]

theorem load_of_refused (h : Refused complaint path file err) :
    load complaint path file e = .error err := by
  cases h with
  | unread => rfl
  | @undecoded bytes h =>
    have hnone : Utf8.decode? bytes = none := by
      rw [Option.eq_none_iff_forall_ne_some]
      intro text htext
      exact h text (decode?_eq_some_iff.1 htext)
    have hfile : fileText path (.ok bytes) =
        .error (.read path "stream did not contain valid UTF-8") := by
      rw [fileText, hnone]
    rw [load, hfile]
  | unparsed h => rw [load_encode, h]
  | invalid h hfaults => simp only [load_encode, h, hfaults]

/-- A file is refused, or holds a valid configuration. -/
theorem refused_or_valid (complaint : String → String) (path : String) (file : File) :
    (∃ err, Refused complaint path file err) ∨
      ∃ text c, file = .ok (Utf8.encode text) ∧ ofYaml? text = some c ∧ c.Valid := by
  cases file with
  | error cause => exact .inl ⟨_, .unread⟩
  | ok bytes =>
    by_cases htext : ∃ text, bytes = Utf8.encode text
    · obtain ⟨text, rfl⟩ := htext
      cases hparse : ofYaml? text with
      | none => exact .inl ⟨_, .unparsed hparse⟩
      | some c =>
        cases hfaults : c.faults with
        | nil => exact .inr ⟨text, c, rfl, hparse, faults_eq_nil_iff.1 hfaults⟩
        | cons err more => exact .inl ⟨err, .invalid hparse hfaults⟩
    · exact .inl ⟨_, .undecoded fun text h => htext ⟨text, h⟩⟩

theorem load_eq_error_iff :
    load complaint path file e = .error err ↔ Refused complaint path file err := by
  constructor
  · intro h
    rcases refused_or_valid complaint path file with ⟨err', hrefused⟩ | ⟨text, c, rfl, hparse, hc⟩
    · rw [load_of_refused hrefused] at h
      cases h
      exact hrefused
    · rw [load_of_valid hparse hc] at h
      cases h
  · exact load_of_refused

theorem load_eq_ok_iff : load complaint path file e = .ok c ↔ ∃ text c₀,
    file = .ok (Utf8.encode text) ∧ ofYaml? text = some c₀ ∧ c₀.Valid ∧ Layered e c₀ c := by
  constructor
  · intro h
    rcases refused_or_valid complaint path file with ⟨err, hrefused⟩ | ⟨text, c₀, rfl, hparse, hc⟩
    · rw [load_of_refused hrefused] at h
      cases h
    · rw [load_of_valid hparse hc] at h
      exact ⟨text, c₀, rfl, hparse, hc, (layered_iff e c₀ c).2 (Except.ok.inj h).symm⟩
  · rintro ⟨text, c₀, rfl, hparse, hc, hlayered⟩
    rw [load_of_valid hparse hc, (layered_iff e c₀ c).1 hlayered]

theorem Layered.valid {c₀ : Config} (h : Layered e c₀ c) (hc : c₀.Valid) : c.Valid := by
  rw [← faults_eq_nil_iff] at hc ⊢
  rw [(layered_iff e c₀ c).1 h, faults_override, hc]

/-- **What loading a configuration comes to.** A file is loaded exactly if it is the text of a
valid configuration, and the result is that configuration with at most six fields changed, each by
its own variable; it is valid as well. Otherwise the first step that fails says why. So no
environment makes a difference to whether a file is loaded, or to why it is not; and to override a
configuration once more changes nothing. -/
theorem load_spec (complaint : String → String) (path : String) (file : File) (e : Environment) :
    (∀ c, load complaint path file e = .ok c ↔ ∃ text c₀, file = .ok (Utf8.encode text) ∧
      ofYaml? text = some c₀ ∧ c₀.Valid ∧ Layered e c₀ c) ∧
    (∀ err, load complaint path file e = .error err ↔ Refused complaint path file err) ∧
    (∀ c, load complaint path file e = .ok c → c.Valid) ∧
    (∀ e', (∃ c, load complaint path file e = .ok c) ↔
      ∃ c, load complaint path file e' = .ok c) ∧
    (∀ c : Config, c.Valid ↔ c.validate = .ok ()) ∧
    (∀ c c' : Config, Layered e c c' ↔ c' = c.override e) ∧
    ∀ c : Config, (c.override e).override e = c.override e := by
  refine ⟨fun c => load_eq_ok_iff, fun err => load_eq_error_iff, fun c h => ?_, fun e' => ?_,
    fun c => ?_, layered_iff e, override_override e⟩
  · obtain ⟨text, c₀, -, -, hc, hlayered⟩ := load_eq_ok_iff.1 h
    exact hlayered.valid hc
  · have hloads : ∀ e e' : Environment, (∃ c, load complaint path file e = .ok c) →
        ∃ c, load complaint path file e' = .ok c := by
      rintro e e' ⟨c, h⟩
      obtain ⟨text, c₀, rfl, hparse, hc, -⟩ := load_eq_ok_iff.1 h
      exact ⟨_, load_of_valid hparse hc⟩
    exact ⟨hloads e e', hloads e' e⟩
  · rw [← faults_eq_nil_iff, validate_eq]
    cases c.faults <;> simp

/-- No more than a file has to give. -/
def brief : String :=
  "p2p: \x7bbootstrap_nodes: []\x7d\nconsensus: \x7bmin_peers: 2, consensus_threshold: 1\x7d"

/-- What it gives. -/
def briefly : Config :=
  ⟨⟨[], Peering.defaultListen, 256, 3600, 10, 30, false⟩, ⟨2, Double.ofNat 1, 60⟩, .default,
    .default, .default, .default⟩

/-- What is said of every text that is no configuration. -/
def tersely (_ : String) : String := "not a configuration"

theorem load_spec_brief :
    load tersely "node.yaml" (.ok (Utf8.encode brief)) ⟨[("PORT", "+0080")]⟩ =
        .ok { briefly with api := ⟨80, false, .default⟩ } ∧
      load tersely "node.yaml" (.ok (Utf8.encode brief)) ⟨[("PORT", "65536")]⟩ = .ok briefly := by
  have hparse : ofYaml? brief = some briefly := by decide +kernel
  obtain ⟨hport, -, -, -, hvalid, hlayered, -⟩ :=
    load_spec tersely "node.yaml" (.ok (Utf8.encode brief)) ⟨[("PORT", "+0080")]⟩
  obtain ⟨hlarge, -, -, -, -, hlayered', -⟩ :=
    load_spec tersely "node.yaml" (.ok (Utf8.encode brief)) ⟨[("PORT", "65536")]⟩
  have hbrief : briefly.Valid := (hvalid briefly).2 (by decide +kernel)
  constructor
  · exact (hport _).2 ⟨brief, briefly, rfl, hparse, hbrief, (hlayered _ _).2 (by decide +kernel)⟩
  · exact (hlarge _).2 ⟨brief, briefly, rfl, hparse, hbrief, (hlayered' _ _).2 (by decide +kernel)⟩

end Quorum.Config
