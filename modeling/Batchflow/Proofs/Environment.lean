import Batchflow.Enqueuer.Options
import Batchflow.Proofs.Decimal.Numerals
import Batchflow.Proofs.Text.Trimming

/-!
# Options from the environment

A variable holds bytes, or nothing.  Bytes that are no text count as nothing.  A text has to be a
number, with any blanks around it.  When each variable that options are read from is one or the
other, every option is the number in its own variable, or its default; otherwise the first variable
that is neither is reported, with its text as it stands.
-/

namespace Batchflow

namespace Config

open Text (Blank)

variable {env env' : Environment} {name raw : String} {n m fallback : Nat}
  {cs front back : List Char} {names : List String} {e : ConfigError}

/-- The texts of the variables that hold these bytes. -/
def Environment.ofBytes (bytes : String → Option (List UInt8)) : Environment :=
  fun name => (bytes name).bind Text.utf8Decode?

theorem ofBytes_eq_some {bytes : String → Option (List UInt8)} :
    Environment.ofBytes bytes name = some raw ↔ bytes name = some (Text.utf8Encode raw) := by
  simp only [Environment.ofBytes, Option.bind_eq_some_iff, Text.utf8Decode?_eq_some]
  constructor
  · rintro ⟨_, h, rfl⟩
    exact h
  · intro h
    exact ⟨_, h, rfl⟩

/-- The first number that does not fit in 64 bits. -/
def numberLimit : Nat := UInt64.size

def Spells (raw : String) (n : Nat) : Prop :=
  ∃ front cs back, raw.toList = front ++ cs ++ back ∧ Blank front ∧ Blank back ∧
    Decimal.Denotes numberLimit cs n

theorem not_blank_of_denotes {limit : Nat} (h : Decimal.Denotes limit cs n) :
    ∀ c ∈ cs, Text.isBlank c = false := by
  obtain ⟨sign, ds, rfl, hsign, -, hdigits, -, -⟩ := h
  intro c hc
  rcases List.mem_append.mp hc with hc | hc
  · rcases hsign with rfl | rfl
    · contradiction
    · rw [List.mem_singleton.mp hc]
      decide
  · exact Text.isBlank_of_isDigit (hdigits c hc)

theorem readNatural_trim {value : UInt64} :
    Decimal.readNatural (Text.trim raw.toList) = .ok value ↔ Spells raw value.toNat := by
  rw [Decimal.readNatural_eq_ok]
  constructor
  · intro h
    obtain ⟨front, back, hfront, hback, hraw⟩ := Text.exists_trim raw.toList
    exact ⟨front, Text.trim raw.toList, back, hraw, hfront, hback, h⟩
  · rintro ⟨front, cs, back, hraw, hfront, hback, h⟩
    rwa [hraw, Text.trim_append hfront (not_blank_of_denotes h) hback]

theorem Spells.lt (h : Spells raw n) : n < numberLimit := by
  obtain ⟨_, _, _, _, _, _, _, _, _, _, _, _, _, hlt⟩ := h
  exact hlt

theorem Spells.readNatural_eq (h : Spells raw n) :
    Decimal.readNatural (Text.trim raw.toList) = .ok (.ofNatLT n h.lt) :=
  readNatural_trim.mpr h

theorem Spells.unique (h : Spells raw m) (h' : Spells raw n) : m = n := by
  have hread := h.readNatural_eq
  rw [h'.readNatural_eq] at hread
  exact (congrArg UInt64.toNat (Except.ok.inj hread)).symm

theorem spells_digits (hn : n < numberLimit) (hfront : Blank front) (hback : Blank back) :
    Spells (String.ofList (front ++ Decimal.digits n ++ back)) n :=
  ⟨front, Decimal.digits n, back, String.toList_ofList, hfront, hback, Decimal.denotes_digits hn⟩

/-- What a variable makes of an option: the number in it, or the default when it has no text. -/
def Says (env : Environment) (name : String) (fallback n : Nat) : Prop :=
  match env name with
  | none => n = fallback
  | some raw => Spells raw n

/-- The text of the variable is no number. -/
def Offends (env : Environment) (name : String) : Prop :=
  ∃ raw, env name = some raw ∧ ∀ n, ¬ Spells raw n

/-- The first of some variables whose text is no number is reported, with all of the text. -/
inductive FirstOffence (env : Environment) : List String → ConfigError → Prop
  | here {name raw rest} (fault : Decimal.NumberFault) : env name = some raw →
      (∀ n, ¬ Spells raw n) → FirstOffence env (name :: rest) (.unreadable name raw fault.message)
  | later {name rest e} : ¬ Offends env name → FirstOffence env rest e →
      FirstOffence env (name :: rest) e

theorem says_of_some (h : env name = some raw) : Says env name fallback n ↔ Spells raw n := by
  rw [Says, h]

theorem says_of_none (h : env name = none) : Says env name fallback n ↔ n = fallback := by
  rw [Says, h]

theorem Says.unique (h : Says env name fallback m) (h' : Says env name fallback n) : m = n := by
  cases henv : env name with
  | none => rw [(says_of_none henv).mp h, (says_of_none henv).mp h']
  | some raw => exact ((says_of_some henv).mp h).unique ((says_of_some henv).mp h')

theorem Says.not_offends (h : Says env name fallback n) : ¬ Offends env name := by
  rintro ⟨raw, henv, hnone⟩
  exact hnone n ((says_of_some henv).mp h)

theorem FirstOffence.exists_offends (h : FirstOffence env names e) :
    ∃ name ∈ names, Offends env name := by
  induction h with
  | here fault henv hnone => exact ⟨_, List.mem_cons_self, _, henv, hnone⟩
  | later _ _ ih =>
    obtain ⟨name, hname, hoffends⟩ := ih
    exact ⟨name, List.mem_cons_of_mem _ hname, hoffends⟩

/-- A variable is read as what it says, or it is reported. -/
theorem readNumber_ok_or_offends (env : Environment) (name : String) :
    (∃ v, readNumber env name = .ok v ∧ ¬ Offends env name ∧
        ∀ fallback, Says env name fallback ((v.map (·.toNat)).getD fallback)) ∨
      ∃ raw fault, readNumber env name =
        .error (.unreadable name raw (Decimal.NumberFault.message fault)) ∧
        env name = some raw ∧ ∀ n, ¬ Spells raw n := by
  unfold readNumber
  cases henv : env name with
  | none =>
    refine .inl ⟨none, rfl, ?_, fun fallback => (says_of_none henv).mpr rfl⟩
    rintro ⟨raw, hraw, -⟩
    simp [henv] at hraw
  | some raw =>
    cases hread : Decimal.readNatural (Text.trim raw.toList) with
    | ok value =>
      have hspells := readNatural_trim.mp hread
      have hmeans (fallback : Nat) : Says env name fallback value.toNat :=
        (says_of_some henv).mpr hspells
      exact .inl ⟨some value, by simp [hread], (hmeans 0).not_offends, hmeans⟩
    | error fault =>
      refine .inr ⟨raw, fault, by simp [hread], rfl, fun n hn => ?_⟩
      rw [hn.readNatural_eq] at hread
      contradiction

theorem total_millis {wait : Duration} {fallback : Nat} (v : Option UInt64)
    (hfallback : wait.total = 1000000 * fallback) :
    ((v.map .ofMillis).getD wait).total = 1000000 * (v.map (·.toNat)).getD fallback := by
  cases v with
  | none => exact hfallback
  | some n => exact Duration.total_ofMillis n

/-- How options are read from these variables. -/
structure Loads {α : Type} (names : List String) (Loaded : Environment → α → Prop)
    (load : Environment → Except ConfigError α) (env : Environment) : Prop where
  ok : ∀ o, load env = .ok o ↔ Loaded env o
  succeeds : (∃ o, load env = .ok o) ↔ ∀ name ∈ names, ¬ Offends env name
  fails : ∀ e, load env = .error e → FirstOffence env names e
  /-- No other variable is looked at. -/
  separate : ∀ env', (∀ name ∈ names, env' name = env name) → load env' = load env

theorem Loads.of_cases {α : Type} {Loaded : Environment → α → Prop}
    {load : Environment → Except ConfigError α}
    (hcases : (∃ o, load env = .ok o ∧ Loaded env o) ∨
      ∃ e, load env = .error e ∧ FirstOffence env names e)
    (hunique : ∀ o o', Loaded env o → Loaded env o' → o = o')
    (hread : ∀ o, Loaded env o → ∀ name ∈ names, ¬ Offends env name)
    (hseparate : ∀ env', (∀ name ∈ names, env' name = env name) → load env' = load env) :
    Loads names Loaded load env := by
  rcases hcases with ⟨o, hload, hloaded⟩ | ⟨e, hload, hfirst⟩
  · refine ⟨fun o' => ?_, ?_, fun e he => ?_, hseparate⟩
    · rw [hload]
      constructor
      · intro h
        exact Except.ok.inj h ▸ hloaded
      · intro h
        rw [hunique o o' hloaded h]
    · exact ⟨fun _ => hread o hloaded, fun _ => ⟨o, hload⟩⟩
    · rw [hload] at he
      contradiction
  · obtain ⟨name, hname, hoffends⟩ := hfirst.exists_offends
    refine ⟨fun o => ?_, ?_, fun e' he => ?_, hseparate⟩
    · constructor
      · intro h
        rw [hload] at h
        contradiction
      · intro h
        exact absurd hoffends (hread o h name hname)
    · constructor
      · rintro ⟨o, h⟩
        rw [hload] at h
        contradiction
      · intro h
        exact absurd hoffends (h name hname)
    · rw [hload] at he
      exact Except.error.inj he ▸ hfirst

end Config

open Config

variable {env : Environment}

namespace Chunker.Options

/-- The variables of the options, in the order in which they are read. -/
def names : List String := ["CHUNKER_SIZE", "CHUNKER_MAX_ELEMENT_WAIT_MS"]

/-- The wait is written in milliseconds. -/
structure LoadedFrom (env : Environment) (o : Options) : Prop where
  size : Says env "CHUNKER_SIZE" 10 o.size
  wait : ∃ millis, Says env "CHUNKER_MAX_ELEMENT_WAIT_MS" 10000 millis ∧
    o.wait.total = 1000000 * millis

theorem LoadedFrom.unique {o o' : Options} (h : LoadedFrom env o) (h' : LoadedFrom env o') :
    o = o' := by
  obtain ⟨hsize, millis, hmillis, hwait⟩ := h
  obtain ⟨hsize', millis', hmillis', hwait'⟩ := h'
  obtain rfl := hmillis.unique hmillis'
  cases o
  cases o'
  simp only [Options.mk.injEq]
  exact ⟨hsize.unique hsize', Duration.ext_total (hwait.trans hwait'.symm)⟩

theorem ofEnvironment_cases (env : Environment) :
    (∃ o, ofEnvironment env = .ok o ∧ LoadedFrom env o) ∨
      ∃ e, ofEnvironment env = .error e ∧ FirstOffence env names e := by
  unfold ofEnvironment readMillis
  rcases readNumber_ok_or_offends env "CHUNKER_SIZE" with
    ⟨size, hsize, hsizeRead, hsizeSays⟩ | ⟨raw, fault, hsize, hraw, hnone⟩
  · rcases readNumber_ok_or_offends env "CHUNKER_MAX_ELEMENT_WAIT_MS" with
      ⟨wait, hwait, -, hwaitSays⟩ | ⟨raw, fault, hwait, hraw, hnone⟩
    · rw [hsize, hwait]
      exact .inl ⟨_, rfl, hsizeSays 10, _, hwaitSays 10000, total_millis wait rfl⟩
    · rw [hsize, hwait]
      exact .inr ⟨_, rfl, .later hsizeRead (.here fault hraw hnone)⟩
  · rw [hsize]
    exact .inr ⟨_, rfl, .here fault hraw hnone⟩

theorem loads (env : Environment) : Loads names LoadedFrom ofEnvironment env := by
  refine .of_cases (ofEnvironment_cases env) (fun _ _ => LoadedFrom.unique) ?_ ?_
  · rintro o ⟨hsize, millis, hmillis, -⟩ name hname
    simp only [names, List.mem_cons, List.not_mem_nil, or_false] at hname
    rcases hname with rfl | rfl
    · exact hsize.not_offends
    · exact hmillis.not_offends
  · intro env' hsame
    simp only [names, List.forall_mem_cons] at hsame
    simp only [ofEnvironment, readMillis, readNumber, hsame]

end Chunker.Options

namespace Enqueuer.Options

/-- The variables of the options, in the order in which they are read. -/
def names : List String :=
  ["ENQUEUER_BUFFER_SIZE", "ENQUEUER_BATCH_SIZE", "ENQUEUER_FAILED_BUFFER_SIZE",
    "ENQUEUER_MAX_MESSAGE_WAIT_MS"]

/-- The wait is written in milliseconds.  No handler can be. -/
structure LoadedFrom (env : Environment) (o : Options) : Prop where
  buffer : Says env "ENQUEUER_BUFFER_SIZE" 20 o.bufferSize
  batch : Says env "ENQUEUER_BATCH_SIZE" 10 o.batchSize
  failedBuffer : Says env "ENQUEUER_FAILED_BUFFER_SIZE" 15 o.failedBufferSize
  wait : ∃ millis, Says env "ENQUEUER_MAX_MESSAGE_WAIT_MS" 10000 millis ∧
    o.maxWait.total = 1000000 * millis
  handler : o.hasHandler = false

theorem LoadedFrom.unique {o o' : Options} (h : LoadedFrom env o) (h' : LoadedFrom env o') :
    o = o' := by
  obtain ⟨hbuffer, hbatch, hfailed, ⟨millis, hmillis, hwait⟩, hhandler⟩ := h
  obtain ⟨hbuffer', hbatch', hfailed', ⟨millis', hmillis', hwait'⟩, hhandler'⟩ := h'
  obtain rfl := hmillis.unique hmillis'
  cases o
  cases o'
  simp only [Options.mk.injEq]
  exact ⟨hbuffer.unique hbuffer', hbatch.unique hbatch', hfailed.unique hfailed',
    Duration.ext_total (hwait.trans hwait'.symm), hhandler.trans hhandler'.symm⟩

theorem ofEnvironment_cases (env : Environment) :
    (∃ o, ofEnvironment env = .ok o ∧ LoadedFrom env o) ∨
      ∃ e, ofEnvironment env = .error e ∧ FirstOffence env names e := by
  unfold ofEnvironment readMillis
  rcases readNumber_ok_or_offends env "ENQUEUER_BUFFER_SIZE" with
    ⟨buffer, hbuffer, hbufferRead, hbufferSays⟩ | ⟨raw, fault, hbuffer, hraw, hnone⟩
  · rcases readNumber_ok_or_offends env "ENQUEUER_BATCH_SIZE" with
      ⟨batch, hbatch, hbatchRead, hbatchSays⟩ | ⟨raw, fault, hbatch, hraw, hnone⟩
    · rcases readNumber_ok_or_offends env "ENQUEUER_FAILED_BUFFER_SIZE" with
        ⟨failed, hfailed, hfailedRead, hfailedSays⟩ | ⟨raw, fault, hfailed, hraw, hnone⟩
      · rcases readNumber_ok_or_offends env "ENQUEUER_MAX_MESSAGE_WAIT_MS" with
          ⟨wait, hwait, -, hwaitSays⟩ | ⟨raw, fault, hwait, hraw, hnone⟩
        · rw [hbuffer, hbatch, hfailed, hwait]
          exact .inl ⟨_, rfl, hbufferSays 20, hbatchSays 10, hfailedSays 15,
            ⟨_, hwaitSays 10000, total_millis wait rfl⟩, rfl⟩
        · rw [hbuffer, hbatch, hfailed, hwait]
          exact .inr ⟨_, rfl,
            .later hbufferRead (.later hbatchRead (.later hfailedRead (.here fault hraw hnone)))⟩
      · rw [hbuffer, hbatch, hfailed]
        exact .inr ⟨_, rfl, .later hbufferRead (.later hbatchRead (.here fault hraw hnone))⟩
    · rw [hbuffer, hbatch]
      exact .inr ⟨_, rfl, .later hbufferRead (.here fault hraw hnone)⟩
  · rw [hbuffer]
    exact .inr ⟨_, rfl, .here fault hraw hnone⟩

theorem loads (env : Environment) : Loads names LoadedFrom ofEnvironment env := by
  refine .of_cases (ofEnvironment_cases env) (fun _ _ => LoadedFrom.unique) ?_ ?_
  · rintro o ⟨hbuffer, hbatch, hfailed, ⟨millis, hmillis, -⟩, -⟩ name hname
    simp only [names, List.mem_cons, List.not_mem_nil, or_false] at hname
    rcases hname with rfl | rfl | rfl | rfl
    · exact hbuffer.not_offends
    · exact hbatch.not_offends
    · exact hfailed.not_offends
    · exact hmillis.not_offends
  · intro env' hsame
    simp only [names, List.forall_mem_cons] at hsame
    simp only [ofEnvironment, readMillis, readNumber, hsame]

end Enqueuer.Options

/-- Whatever the variables of the environment hold, the options of an enqueuer and of a chunker are
what their variables say, or the first of these that says nothing is reported.  A variable that
holds no text does not count, and one that holds the digits of a number, with any blanks around them,
says that number. -/
theorem options_loaded (bytes : String → Option (List UInt8)) :
    Loads Enqueuer.Options.names Enqueuer.Options.LoadedFrom Enqueuer.Options.ofEnvironment
        (.ofBytes bytes) ∧
      Loads Chunker.Options.names Chunker.Options.LoadedFrom Chunker.Options.ofEnvironment
        (.ofBytes bytes) ∧
      (∀ name raw, Environment.ofBytes bytes name = some raw ↔
        bytes name = some (Text.utf8Encode raw)) ∧
      ∀ name n front back, n < numberLimit → Text.Blank front → Text.Blank back →
        bytes name = some (Text.utf8Encode (String.ofList (front ++ Decimal.digits n ++ back))) →
        ∀ fallback m, Says (.ofBytes bytes) name fallback m ↔ m = n := by
  refine ⟨Enqueuer.Options.loads _, Chunker.Options.loads _, fun _ _ => ofBytes_eq_some, ?_⟩
  intro name n front back hn hfront hback hbytes fallback m
  have hspells := spells_digits hn hfront hback
  rw [says_of_some (ofBytes_eq_some.mpr hbytes)]
  constructor
  · intro h
    exact h.unique hspells
  · rintro rfl
    exact hspells

/-- One number has blanks, a sign and zeros around it, and where another should be is no text. -/
def paddedBytes (name : String) : Option (List UInt8) :=
  if name = "ENQUEUER_BUFFER_SIZE" then some (Text.utf8Encode "\n+0064 ")
  else if name = "ENQUEUER_BATCH_SIZE" then some [0xFF]
  else none

theorem options_loaded_paddedBytes :
    Enqueuer.Options.ofEnvironment (.ofBytes paddedBytes) = .ok { bufferSize := 64 } := by
  obtain ⟨henqueuer, -, htexts, -⟩ := options_loaded paddedBytes
  have hbuffer := (htexts "ENQUEUER_BUFFER_SIZE" "\n+0064 ").mpr rfl
  have hread : Decimal.readNatural (Text.trim "\n+0064 ".toList) = .ok 64 := by decide +kernel
  have hspells : Spells "\n+0064 " 64 := readNatural_trim.mp hread
  have hbatch : Environment.ofBytes paddedBytes "ENQUEUER_BATCH_SIZE" = none := by decide +kernel
  refine (henqueuer.ok _).mpr ⟨(says_of_some hbuffer).mpr hspells, (says_of_none hbatch).mpr rfl,
    (says_of_none rfl).mpr rfl, ⟨10000, (says_of_none rfl).mpr rfl, rfl⟩, rfl⟩

end Batchflow
