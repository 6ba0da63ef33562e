import Quaso.Kv.Parsing
import Quaso.Raft.Cluster
import Quaso.Raft.Disk

/-!
# The configuration file

`parse_config` of `raft/src/utils.rs`, which `kv/src/main.rs` calls at its start.  The
`YamlLoader` is a parameter; what it loads is read key by key, and a key that is missing is
not an error that is returned but a panic, since a `Hash` is indexed.

* `fromYamlHash`, `yamlEnumToString`, `yamlToVecString`, `parseU64` — the readers.
* `parseDocument`, `parseConfig` — the configuration, or how reading it fails.
* `startNode` — the node that is started with it.
* `Describes` — what a document says, key by key.
* `parseConfig_eq_ok_iff` — what is accepted, and as what.
* `parseConfig_of_complete` — from a file with all its keys nothing panics.
* `started_from_files` — the start of a cluster.
* `parseConfig_toYaml` — a configuration that is written down is read back.
-/

namespace Quaso

/-! ## What is read -/

/-- `yaml_rust2::Yaml`; the keys of a hash are distinct. -/
inductive Yaml where
  | real (text : String)
  | integer (value : Int)
  | string (text : String)
  | boolean (value : Bool)
  | array (items : List Yaml)
  | hash (entries : List (Yaml × Yaml))
  | alias (anchor : Nat)
  | null
  | badValue

/-- `HelperErrors`. -/
inductive HelperErrors where
  | ioError
  | socketParserError
  | parserYamlError
  deriving DecidableEq, Repr

/-- How `parse_config` fails. -/
inductive ParseFailure where
  | returned (e : HelperErrors)
  | panicked
  deriving DecidableEq, Repr

/-- `HelperErrorResult`, or a panic. -/
abbrev Parsed (α : Type) := Except ParseFailure α

/-- `Result::unwrap`. -/
def Parsed.unwrap {α : Type} : Parsed α → Parsed α
  | .ok a => .ok a
  | .error _ => .error .panicked

/-- `RaftConfig`. -/
structure RaftConfig where
  persistPath : String
  listenerAddr : Addr
  connections : List Addr

/-- `StoreConfig`. -/
structure StoreConfig where
  serverAddr : Addr
  localPath : String

/-- `Config` as it is parsed, with the parts that the consensus layer does not read. -/
structure ParsedConfig where
  nodeId : NodeId
  nodeName : String
  raft : RaftConfig
  store : StoreConfig

/-- What the consensus layer reads of it. -/
def ParsedConfig.toConfig (conf : ParsedConfig) : Config where
  nodeId := conf.nodeId
  listenerAddr := conf.raft.listenerAddr
  connections := conf.raft.connections

/-! ## Reading -/

def Yaml.isKey (key : String) : Yaml → Bool
  | .string text => text == key
  | _ => false

/-- `from_yaml_hash`. -/
def fromYamlHash (key : String) : Yaml → Parsed Yaml
  | .hash entries =>
    match entries.find? fun entry => entry.1.isKey key with
    | some (_, value) => .ok value
    | none => .error .panicked
  | _ => .error (.returned .parserYamlError)

/-- `yaml_enum_to_string`. -/
def yamlEnumToString : Yaml → Parsed String
  | .string text => .ok text
  | .integer value => .ok (toString value)
  | _ => .error (.returned .parserYamlError)

/-- The loop of `yaml_to_vec_string`. -/
def stringsOf : List Yaml → Parsed (List String)
  | [] => .ok []
  | .string text :: items => (stringsOf items).map (text :: ·)
  | _ :: _ => .error (.returned .parserYamlError)

/-- `yaml_to_vec_string`. -/
def yamlToVecString : Yaml → Parsed (List String)
  | .array items => stringsOf items
  | _ => .error (.returned .parserYamlError)

/-- The text after a plus sign, if it begins with one. -/
def withoutPlus : Text → Text
  | '+' :: rest => rest
  | text => text

/-- `str::parse::<u64>`: digits, perhaps after a plus sign, of a number that fits. -/
def parseU64 (text : Text) : Option UInt64 :=
  let digits := withoutPlus text
  if digits ≠ [] ∧ digits.all Char.isDigit = true ∧ Nat.ofDigitChars 10 digits 0 < 2 ^ 64 then
    some (UInt64.ofNat (Nat.ofDigitChars 10 digits 0))
  else none

/-- The node id, of which a failure to parse is unwrapped. -/
def parseNodeId (text : String) : Parsed NodeId :=
  match parseU64 (trim text.toList) with
  | some id => .ok id
  | none => .error .panicked

/-- The fields of the three sections, in the order of `parse_config`. -/
def parseFields (metadata raft store : Yaml) : Parsed ParsedConfig := do
  let nodeName ← fromYamlHash "node_name" metadata >>= yamlEnumToString
  let nodeId ← fromYamlHash "node_id" metadata >>= yamlEnumToString >>= parseNodeId
  let persistPath ← fromYamlHash "persist_file" raft >>= yamlEnumToString
  let listenerAddr ← fromYamlHash "listiner_addr" raft >>= yamlEnumToString
  let connections ← fromYamlHash "connections" raft >>= yamlToVecString
  let serverAddr ← fromYamlHash "server_addr" store >>= yamlEnumToString
  let localPath ← fromYamlHash "local_path" store >>= yamlEnumToString
  return ⟨nodeId, nodeName, ⟨persistPath, listenerAddr, connections⟩, ⟨serverAddr, localPath⟩⟩

/-- `parse_config` on the first document. -/
def parseDocument (root : Yaml) : Parsed ParsedConfig := do
  let metadata ← (fromYamlHash "metadata" root).unwrap
  let services ← (fromYamlHash "services" root).unwrap
  let raft ← (fromYamlHash "raft" services).unwrap
  let store ← (fromYamlHash "store" services).unwrap
  parseFields metadata raft store

/-- `parse_config`; there is no `content` when the file cannot be read, and `load` gives no
documents when the scanner fails. -/
def parseConfig (load : String → Option (List Yaml)) (content : Option String) :
    Parsed ParsedConfig :=
  match content with
  | none => .error (.returned .ioError)
  | some text =>
    match load text with
    | some (root :: _) => parseDocument root
    | _ => .error .panicked

/-- The node that `main` starts: `parse_config`, which it expects to succeed, and
`Raft::new_from_config`. -/
def startNode {T : Type} (load : String → Option (List Yaml)) (content : Option String)
    (codec : DiskCodec T) (file : File) (env : Env) : Option (Node T) :=
  match parseConfig load content with
  | .ok conf => (PersistentState.initState codec file).map (Node.boot conf.toConfig env)
  | .error _ => none

/-! ## What a document says -/

/-- The value under a path of keys. -/
def Yaml.get : List String → Yaml → Option Yaml
  | [], yaml => some yaml
  | key :: path, .hash entries =>
    (entries.find? fun entry => entry.1.isKey key).bind fun (_, value) => value.get path
  | _ :: _, _ => none

/-- A value that is written as a text or as a number. -/
def Yaml.Reads (yaml : Yaml) (text : String) : Prop :=
  yaml = .string text ∨ ∃ value, yaml = .integer value ∧ text = toString value

/-- What a document says, key by key. -/
structure Describes (root : Yaml) (conf : ParsedConfig) : Prop where
  nodeName : ∃ v, root.get ["metadata", "node_name"] = some v ∧ v.Reads conf.nodeName
  nodeId : ∃ v text, root.get ["metadata", "node_id"] = some v ∧ v.Reads text ∧
    parseU64 (trim text.toList) = some conf.nodeId
  persistPath : ∃ v, root.get ["services", "raft", "persist_file"] = some v ∧
    v.Reads conf.raft.persistPath
  listenerAddr : ∃ v, root.get ["services", "raft", "listiner_addr"] = some v ∧
    v.Reads conf.raft.listenerAddr
  connections : root.get ["services", "raft", "connections"]
    = some (.array (conf.raft.connections.map .string))
  serverAddr : ∃ v, root.get ["services", "store", "server_addr"] = some v ∧
    v.Reads conf.store.serverAddr
  localPath : ∃ v, root.get ["services", "store", "local_path"] = some v ∧
    v.Reads conf.store.localPath

/-! ## What is accepted -/

section Accepted

variable {α β : Type} {x : Parsed α} {f : α → Parsed β} {key : String} {yaml root v : Yaml}
  {conf : ParsedConfig}

theorem parsed_bind_eq_ok {b : β} : (x >>= f) = .ok b ↔ ∃ a, x = .ok a ∧ f a = .ok b := by
  cases x with
  | ok a =>
    constructor
    · exact fun h => ⟨a, rfl, h⟩
    · rintro ⟨_, ⟨⟩, h⟩
      exact h
  | error e =>
    constructor
    · nofun
    · rintro ⟨_, ⟨⟩, _⟩

theorem Parsed.unwrap_eq_ok {a : α} : x.unwrap = .ok a ↔ x = .ok a := by
  cases x <;> simp [Parsed.unwrap]

theorem Yaml.get_cons (path : List String) :
    yaml.get (key :: path) = (yaml.get [key]).bind fun v => v.get path := by
  cases yaml with
  | hash entries =>
    simp only [Yaml.get, Option.bind_assoc]
    rfl
  | _ => rfl

/-- Below a value that is there, the path goes on from it. -/
theorem Yaml.get_under {path : List String} (h : yaml.get [key] = some v) :
    yaml.get (key :: path) = v.get path := by
  rw [Yaml.get_cons, h, Option.bind_some]

/-- A path that leads to a value leads to one at its first key. -/
theorem Yaml.get_first {path : List String} (h : yaml.get (key :: path) = some v) :
    ∃ u, yaml.get [key] = some u ∧ u.get path = some v := by
  rw [Yaml.get_cons] at h
  exact Option.bind_eq_some_iff.1 h

theorem fromYamlHash_eq_ok : fromYamlHash key yaml = .ok v ↔ yaml.get [key] = some v := by
  cases yaml with
  | hash entries =>
    simp only [fromYamlHash, Yaml.get]
    split
    · rename_i value hfind
      simp [hfind]
    · rename_i hfind
      simp [hfind]
  | _ => simp [fromYamlHash, Yaml.get]

theorem yamlEnumToString_eq_ok {text : String} :
    yamlEnumToString yaml = .ok text ↔ yaml.Reads text := by
  cases yaml with
  | string t => simp [yamlEnumToString, Yaml.Reads]
  | integer value => simp [yamlEnumToString, Yaml.Reads, eq_comm]
  | _ => simp [yamlEnumToString, Yaml.Reads]

theorem stringsOf_eq_ok {items : List Yaml} {texts : List String} :
    stringsOf items = .ok texts ↔ items = texts.map .string := by
  induction items generalizing texts with
  | nil => cases texts <;> simp [stringsOf]
  | cons item items ih =>
    cases item with
    | string text =>
      have hmap : stringsOf (.string text :: items) = .ok texts ↔
          ∃ rest, stringsOf items = .ok rest ∧ text :: rest = texts := by
        rw [stringsOf]
        cases stringsOf items <;> simp [Except.map]
      rw [hmap]
      constructor
      · rintro ⟨rest, hrest, rfl⟩
        rw [ih.1 hrest, List.map_cons]
      · intro h
        cases texts with
        | nil => cases h
        | cons t rest =>
          obtain ⟨ht, hrest⟩ := List.cons.inj h
          cases ht
          exact ⟨rest, ih.2 hrest, rfl⟩
    | _ => cases texts <;> simp [stringsOf]

theorem yamlToVecString_eq_ok {texts : List String} :
    yamlToVecString yaml = .ok texts ↔ yaml = .array (texts.map .string) := by
  cases yaml with
  | array items => simp [yamlToVecString, stringsOf_eq_ok]
  | _ => simp [yamlToVecString]

theorem parseNodeId_eq_ok {text : String} {id : NodeId} :
    parseNodeId text = .ok id ↔ parseU64 (trim text.toList) = some id := by
  unfold parseNodeId
  cases parseU64 (trim text.toList) <;> simp

/-- What a document is accepted as. -/
theorem parseDocument_eq_ok_iff : parseDocument root = .ok conf ↔ Describes root conf := by
  simp only [parseDocument, parseFields, parsed_bind_eq_ok, Parsed.unwrap_eq_ok, fromYamlHash_eq_ok,
    yamlEnumToString_eq_ok, yamlToVecString_eq_ok, parseNodeId_eq_ok]
  constructor
  · rintro ⟨metadata, hmetadata, services, hservices, raft, hraft, store, hstore, nodeName,
      ⟨v₁, h₁, hr₁⟩, nodeId, ⟨text, ⟨v₂, h₂, hr₂⟩, hid⟩, persistPath, ⟨v₃, h₃, hr₃⟩, listenerAddr,
      ⟨v₄, h₄, hr₄⟩, connections, ⟨_, h₅, rfl⟩, serverAddr, ⟨v₆, h₆, hr₆⟩, localPath,
      ⟨v₇, h₇, hr₇⟩, heq⟩
    cases heq
    constructor
    · exact ⟨v₁, (Yaml.get_under hmetadata).trans h₁, hr₁⟩
    · exact ⟨v₂, text, (Yaml.get_under hmetadata).trans h₂, hr₂, hid⟩
    · exact ⟨v₃, (Yaml.get_under hservices).trans ((Yaml.get_under hraft).trans h₃), hr₃⟩
    · exact ⟨v₄, (Yaml.get_under hservices).trans ((Yaml.get_under hraft).trans h₄), hr₄⟩
    · exact (Yaml.get_under hservices).trans ((Yaml.get_under hraft).trans h₅)
    · exact ⟨v₆, (Yaml.get_under hservices).trans ((Yaml.get_under hstore).trans h₆), hr₆⟩
    · exact ⟨v₇, (Yaml.get_under hservices).trans ((Yaml.get_under hstore).trans h₇), hr₇⟩
  · rintro ⟨⟨v₁, h₁, hr₁⟩, ⟨v₂, text, h₂, hr₂, hid⟩, ⟨v₃, h₃, hr₃⟩, ⟨v₄, h₄, hr₄⟩, h₅,
      ⟨v₆, h₆, hr₆⟩, ⟨v₇, h₇, hr₇⟩⟩
    obtain ⟨metadata, hmetadata, h₁⟩ := Yaml.get_first h₁
    obtain ⟨services, hservices, h₃⟩ := Yaml.get_first h₃
    obtain ⟨raft, hraft, h₃⟩ := Yaml.get_first h₃
    rw [Yaml.get_under hmetadata] at h₂
    rw [Yaml.get_under hservices] at h₄ h₅ h₆ h₇
    rw [Yaml.get_under hraft] at h₄ h₅
    obtain ⟨store, hstore, h₆⟩ := Yaml.get_first h₆
    rw [Yaml.get_under hstore] at h₇
    exact ⟨metadata, hmetadata, services, hservices, raft, hraft, store, hstore, conf.nodeName,
      ⟨v₁, h₁, hr₁⟩, conf.nodeId, ⟨text, ⟨v₂, h₂, hr₂⟩, hid⟩, _, ⟨v₃, h₃, hr₃⟩, _, ⟨v₄, h₄, hr₄⟩, _,
      ⟨_, h₅, rfl⟩, _, ⟨v₆, h₆, hr₆⟩, _, ⟨v₇, h₇, hr₇⟩, rfl⟩

/-! ## What panics -/

/-- The keys that `parse_config` looks for. -/
def keyPaths : List (List String) :=
  [["metadata", "node_name"], ["metadata", "node_id"], ["services", "raft", "persist_file"],
    ["services", "raft", "listiner_addr"], ["services", "raft", "connections"],
    ["services", "store", "server_addr"], ["services", "store", "local_path"]]

/-- A document with all its keys, and a node id that is a number if it is a text at all. -/
structure Complete (root : Yaml) : Prop where
  keys : ∀ path ∈ keyPaths, ∃ v, root.get path = some v
  nodeId : ∀ v text, root.get ["metadata", "node_id"] = some v → v.Reads text →
    ∃ id, parseU64 (trim text.toList) = some id

/-- Nothing panics, and what is returned as an error is one of the parser. -/
def Calm (x : Parsed α) : Prop :=
  ∀ e, x = .error e → e = .returned .parserYamlError

theorem Calm.ok (a : α) : Calm (.ok a : Parsed α) := nofun

theorem Calm.bind (hx : Calm x) (hf : ∀ a, x = .ok a → Calm (f a)) : Calm (x >>= f) := by
  cases x with
  | ok a => exact hf a rfl
  | error e =>
    intro e' he
    cases he
    exact hx e rfl

theorem calm_yamlEnumToString (yaml : Yaml) : Calm (yamlEnumToString yaml) := by
  intro e he
  cases yaml <;> cases he <;> rfl

theorem calm_stringsOf (items : List Yaml) : Calm (stringsOf items) := by
  induction items with
  | nil => exact Calm.ok []
  | cons item items ih =>
    cases item with
    | string text =>
      intro e he
      rw [stringsOf] at he
      cases hrest : stringsOf items with
      | ok texts =>
        rw [hrest] at he
        cases he
      | error e' =>
        rw [hrest] at he
        cases he
        exact ih e hrest
    | _ =>
      intro e he
      cases he
      rfl

theorem calm_yamlToVecString (yaml : Yaml) : Calm (yamlToVecString yaml) := by
  cases yaml with
  | array items => exact calm_stringsOf items
  | _ =>
    intro e he
    cases he
    rfl

/-- A text under a key that is there. -/
theorem calm_text (h : yaml.get [key] = some v) :
    Calm (fromYamlHash key yaml >>= yamlEnumToString) := by
  rw [fromYamlHash_eq_ok.2 h]
  exact calm_yamlEnumToString v

/-- A section that is there. -/
theorem calm_section {f : Yaml → Parsed β} (h : yaml.get [key] = some v) (hf : Calm (f v)) :
    Calm ((fromYamlHash key yaml).unwrap >>= f) := by
  rw [fromYamlHash_eq_ok.2 h]
  exact hf

theorem Complete.calm (h : Complete root) : Calm (parseDocument root) := by
  have hkeys : ∀ path ∈ keyPaths, ∃ v, root.get path = some v := h.keys
  simp only [keyPaths, List.forall_mem_cons] at hkeys
  obtain ⟨⟨v₁, h₁⟩, ⟨v₂, h₂⟩, ⟨v₃, h₃⟩, ⟨v₄, h₄⟩, ⟨v₅, h₅⟩, ⟨v₆, h₆⟩, ⟨v₇, h₇⟩, -⟩ := hkeys
  have hid := h.nodeId v₂
  obtain ⟨metadata, hmetadata, h₁⟩ := Yaml.get_first h₁
  obtain ⟨services, hservices, h₃⟩ := Yaml.get_first h₃
  obtain ⟨raft, hraft, h₃⟩ := Yaml.get_first h₃
  rw [Yaml.get_under hmetadata] at h₂ hid
  rw [Yaml.get_under hservices] at h₄ h₅ h₆ h₇
  rw [Yaml.get_under hraft] at h₄ h₅
  obtain ⟨store, hstore, h₆⟩ := Yaml.get_first h₆
  rw [Yaml.get_under hstore] at h₇
  have hnodeId : Calm (fromYamlHash "node_id" metadata >>= yamlEnumToString >>= parseNodeId) := by
    refine (calm_text h₂).bind fun text htext => ?_
    obtain ⟨v, hv, hreads⟩ := parsed_bind_eq_ok.1 htext
    obtain rfl := Option.some.inj (h₂.symm.trans (fromYamlHash_eq_ok.1 hv))
    obtain ⟨id, hparse⟩ := hid text h₂ (yamlEnumToString_eq_ok.1 hreads)
    rw [parseNodeId_eq_ok.2 hparse]
    exact Calm.ok id
  have hconnections : Calm (fromYamlHash "connections" raft >>= yamlToVecString) := by
    rw [fromYamlHash_eq_ok.2 h₅]
    exact calm_yamlToVecString v₅
  have hfields : Calm (parseFields metadata raft store) :=
    (calm_text h₁).bind fun _ _ => hnodeId.bind fun _ _ => (calm_text h₃).bind fun _ _ =>
      (calm_text h₄).bind fun _ _ => hconnections.bind fun _ _ => (calm_text h₆).bind fun _ _ =>
        (calm_text h₇).bind fun _ _ => Calm.ok _
  exact calm_section hmetadata (calm_section hservices (calm_section hraft
    (calm_section hstore hfields)))

end Accepted

/-- **What is accepted.**  `parse_config` gives a configuration exactly when the file can be
read, its text can be loaded, and the first document describes it: every text is written as a
text or a number, the addresses of the peers are a list of texts, and the node id is a decimal
number below `2 ^ 64`, perhaps between blanks and after a plus sign. -/
theorem parseConfig_eq_ok_iff {load : String → Option (List Yaml)} {content : Option String}
    {conf : ParsedConfig} : parseConfig load content = .ok conf ↔
      ∃ text root docs, content = some text ∧ load text = some (root :: docs) ∧
        Describes root conf := by
  constructor
  · intro h
    unfold parseConfig at h
    split at h
    · cases h
    · rename_i text
      split at h
      · rename_i root docs hload
        exact ⟨text, root, docs, rfl, hload, parseDocument_eq_ok_iff.1 h⟩
      · cases h
  · rintro ⟨text, root, docs, rfl, hload, hdescribes⟩
    simp only [parseConfig, hload]
    exact parseDocument_eq_ok_iff.2 hdescribes

/-- **From a complete file nothing panics.**  When the file can be read and its first document
has every key that is looked for, with a number for the node id if it is a text at all, then
`parse_config` returns: the configuration that the document describes, or the error of the
parser if it describes none. -/
theorem parseConfig_of_complete {load : String → Option (List Yaml)} {text : String}
    {root : Yaml} {docs : List Yaml} (hload : load text = some (root :: docs))
    (hcomplete : Complete root) :
    (∃ conf, Describes root conf ∧ parseConfig load (some text) = .ok conf) ∨
    (¬ ∃ conf, Describes root conf) ∧
      parseConfig load (some text) = .error (.returned .parserYamlError) := by
  have hparse : parseConfig load (some text) = parseDocument root := by
    simp only [parseConfig, hload]
  rw [hparse]
  cases hdocument : parseDocument root with
  | ok conf => exact Or.inl ⟨conf, parseDocument_eq_ok_iff.1 hdocument, rfl⟩
  | error e =>
    refine Or.inr ⟨?_, by rw [hcomplete.calm e hdocument]⟩
    rintro ⟨conf, hconf⟩
    rw [parseDocument_eq_ok_iff.2 hconf] at hdocument
    cases hdocument

/-- The text of a file in `kv/data`, with a node id as it is written there. -/
def machineText (name nodeId peer peer' : String) : String :=
  "metadata:\n  node_name: \"" ++ name ++ "\"\n  node_id: " ++ nodeId ++
  "\nservices:\n    raft:\n        persist_file: \"/tmp/machine.state\"\n" ++
  "        listiner_addr: \"" ++ name ++ ":8080\"\n        connections:\n" ++
  "            - \"" ++ peer ++ ":8080\"\n            - \"" ++ peer' ++ ":8080\"\n" ++
  "    store:\n        server_addr: \"" ++ name ++ ":6060\"\n        local_path: \"/tmp/\"\n"

/-- What the loader makes of it. -/
def machineYml (name : String) (nodeId : Yaml) (peer peer' : String) : Yaml :=
  .hash
    [(.string "metadata", .hash
      [(.string "node_name", .string name), (.string "node_id", nodeId)]),
      (.string "services", .hash
        [(.string "raft", .hash
          [(.string "persist_file", .string "/tmp/machine.state"),
            (.string "listiner_addr", .string (name ++ ":8080")),
            (.string "connections",
              .array [.string (peer ++ ":8080"), .string (peer' ++ ":8080")])]),
          (.string "store", .hash
            [(.string "server_addr", .string (name ++ ":6060")),
              (.string "local_path", .string "/tmp/")])])]

/-- What it describes. -/
def machineConf (name : String) (nodeId : NodeId) (peer peer' : String) : ParsedConfig :=
  ⟨nodeId, name, ⟨"/tmp/machine.state", name ++ ":8080", [peer ++ ":8080", peer' ++ ":8080"]⟩,
    ⟨name ++ ":6060", "/tmp/"⟩⟩

theorem describes_machineYml (name peer peer' : String) {value : Int} {id : NodeId}
    (hid : parseU64 (trim (toString value).toList) = some id) :
    Describes (machineYml name (.integer value) peer peer') (machineConf name id peer peer') where
  nodeName := ⟨_, rfl, Or.inl rfl⟩
  nodeId := ⟨_, _, rfl, Or.inr ⟨value, rfl, rfl⟩, hid⟩
  persistPath := ⟨_, rfl, Or.inl rfl⟩
  listenerAddr := ⟨_, rfl, Or.inl rfl⟩
  connections := rfl
  serverAddr := ⟨_, rfl, Or.inl rfl⟩
  localPath := ⟨_, rfl, Or.inl rfl⟩

/-- The names, node ids and peers in the three files in `kv/data`. -/
def machines : Fin 3 → String × Nat × String × String :=
  ![("machine1", 32, "machine2", "machine3"), ("machine2", 16, "machine1", "machine3"),
    ("machine3", 64, "machine2", "machine1")]

/-- The third file ends in an empty line. -/
def machineTexts (i : Fin 3) : String :=
  machineText (machines i).1 (toString (machines i).2.1) (machines i).2.2.1 (machines i).2.2.2
    ++ !["", "", "\n"] i

def machineYmls (i : Fin 3) : Yaml :=
  machineYml (machines i).1 (.integer (machines i).2.1) (machines i).2.2.1 (machines i).2.2.2

def machineConfs (i : Fin 3) : ParsedConfig :=
  machineConf (machines i).1 (UInt64.ofNat (machines i).2.1) (machines i).2.2.1 (machines i).2.2.2

theorem describes_machineYmls (i : Fin 3) : Describes (machineYmls i) (machineConfs i) :=
  match i with
  | 0 => describes_machineYml _ _ _ (by decide)
  | 1 => describes_machineYml _ _ _ (by decide)
  | 2 => describes_machineYml _ _ _ (by decide)

/-- The loader, at the three files in `kv/data`, and at the first with a quoted number. -/
def loadMachines (text : String) : Option (List Yaml) :=
  if text = machineTexts 0 then some [machineYmls 0]
  else if text = machineTexts 1 then some [machineYmls 1]
  else if text = machineTexts 2 then some [machineYmls 2]
  else if text = machineText "machine1" "\"32\"" "machine2" "machine3" then
    some [machineYml "machine1" (.string "32") "machine2" "machine3"]
  else none

theorem parseConfig_of_complete_machine1 : ∃ conf, Describes (machineYmls 0) conf ∧
    parseConfig loadMachines (some (machineTexts 0)) = .ok conf := by
  have hload : loadMachines (machineTexts 0) = some [machineYmls 0] := if_pos rfl
  have hcomplete : Complete (machineYmls 0) := by
    constructor
    · simp [keyPaths, machineYmls, machines, machineYml, Yaml.get, Yaml.isKey]
    · rintro v text hget (rfl | ⟨value, rfl, rfl⟩)
      · cases hget
      · cases hget
        exact ⟨32, by decide⟩
  rcases parseConfig_of_complete hload hcomplete with hconf | ⟨hnone, _⟩
  · exact hconf
  · exact absurd ⟨_, describes_machineYmls 0⟩ hnone

/-! ## The start of a cluster -/

/-- **A cluster is started from its files.**  When every file describes a configuration, and
together these have distinct node ids, distinct listener addresses, and on every node a list
of exactly the addresses of the others, then the nodes that are started from the files,
without a saved state, are a cluster that has just been started. -/
theorem started_from_files {n : Nat} {T : Type} {roots : Fin n → Yaml}
    {conf : Fin n → ParsedConfig} {load : String → Option (List Yaml)} {text : Fin n → String}
    (hdescribes : ∀ i, Describes (roots i) (conf i))
    (hload : ∀ i, ∃ docs, load (text i) = some (roots i :: docs))
    (hid : Function.Injective fun i => (conf i).nodeId)
    (haddr : Function.Injective fun i => (conf i).raft.listenerAddr)
    (hnodup : ∀ i, (conf i).raft.connections.Nodup)
    (hpeers : ∀ i addr,
      addr ∈ (conf i).raft.connections ↔ ∃ j, j ≠ i ∧ (conf j).raft.listenerAddr = addr)
    (codec : DiskCodec T) (boot : Fin n → Env) :
    ∃ C : ClusterConfig n, (∀ i, C.conf i = (conf i).toConfig) ∧
      ∃ s : Cluster C T, (clusterSystem C T).Init s ∧
        ∀ i, startNode load (some (text i)) codec none (boot i) = some (s.nodes i) := by
  let C : ClusterConfig n := ⟨fun i => (conf i).toConfig, hid, haddr, hnodup, hpeers⟩
  refine ⟨C, fun _ => rfl, Cluster.start C T boot, ⟨boot, rfl⟩, fun i => ?_⟩
  obtain ⟨docs, hdocs⟩ := hload i
  simp only [startNode, parseConfig, hdocs, parseDocument_eq_ok_iff.2 (hdescribes i)]
  rfl

/-- The files in `kv/data` start a cluster of three. -/
theorem started_from_files_machines : ∃ C : ClusterConfig 3,
    (∀ i, C.conf i = (machineConfs i).toConfig) ∧ ∃ s : Cluster C Nat,
      (clusterSystem C Nat).Init s ∧ ∀ i, startNode loadMachines (some (machineTexts i))
        numberCodec none (.atTime 0) = some (s.nodes i) := by
  have hload : ∀ i, ∃ docs, loadMachines (machineTexts i) = some (machineYmls i :: docs) := fun
    | 0 => ⟨[], if_pos rfl⟩
    | 1 => ⟨[], by rw [loadMachines, if_neg (by decide +kernel), if_pos rfl]⟩
    | 2 => ⟨[], by
      rw [loadMachines, if_neg (by decide +kernel), if_neg (by decide +kernel), if_pos rfl]⟩
  have hpeers : ∀ i addr, addr ∈ (machineConfs i).raft.connections ↔
      ∃ j, j ≠ i ∧ (machineConfs j).raft.listenerAddr = addr := by
    intro i addr
    have hset : ∀ i, (machineConfs i).raft.connections.toFinset
        = (Finset.univ.erase i).image fun j => (machineConfs j).raft.listenerAddr := by decide
    rw [← List.mem_toFinset, hset i]
    simp
  exact started_from_files describes_machineYmls hload (by decide) (by decide) (by decide) hpeers
    numberCodec fun _ => .atTime 0

/-! ## Round trip -/

/-- A configuration as it is written down, with the node id in quotes. -/
def ParsedConfig.toYaml (conf : ParsedConfig) : Yaml :=
  .hash
    [(.string "metadata", .hash
      [(.string "node_name", .string conf.nodeName),
        (.string "node_id", .string (toString conf.nodeId.toNat))]),
      (.string "services", .hash
        [(.string "raft", .hash
          [(.string "persist_file", .string conf.raft.persistPath),
            (.string "listiner_addr", .string conf.raft.listenerAddr),
            (.string "connections", .array (conf.raft.connections.map .string))]),
          (.string "store", .hash
            [(.string "server_addr", .string conf.store.serverAddr),
              (.string "local_path", .string conf.store.localPath)])])]

theorem isWhitespace_of_isDigit {c : Char} (h : c.isDigit = true) : isWhitespace c = false := by
  obtain ⟨hlow, hhigh⟩ := Char.isDigit_iff_toNat.1 h
  have h0 : '0'.toNat = 48 := rfl
  have h9 : '9'.toNat = 57 := rfl
  simp only [isWhitespace, Bool.or_eq_false_iff, Bool.and_eq_false_iff, decide_eq_false_iff_not,
    beq_eq_false_iff_ne]
  omega

/-- Digits do not begin with a plus sign. -/
theorem withoutPlus_of_isDigit {text : Text} (h : ∀ c ∈ text, c.isDigit = true) :
    withoutPlus text = text := by
  unfold withoutPlus
  split
  · exact absurd (h _ List.mem_cons_self) (by decide)
  · rfl

/-- A number that is written down is read back. -/
theorem parseU64_toString (id : UInt64) :
    parseU64 (trim (toString id.toNat).toList) = some id := by
  have hdigits : ∀ c ∈ Nat.toDigits 10 id.toNat, c.isDigit = true := fun c hc =>
    Nat.isDigit_of_mem_toDigits (by decide) (by decide) hc
  have hword : IsWord (Nat.toDigits 10 id.toNat) :=
    ⟨Nat.toDigits_ne_nil, fun c hc => isWhitespace_of_isDigit (hdigits c hc)⟩
  rw [show (toString id.toNat).toList = Nat.toDigits 10 id.toNat from Nat.toList_repr,
    hword.trim, parseU64, withoutPlus_of_isDigit hdigits, Nat.ofDigitChars_ten_toDigits,
    if_pos ⟨hword.1, List.all_eq_true.2 hdigits, id.toNat_lt⟩, UInt64.ofNat_toNat]

theorem describes_toYaml (conf : ParsedConfig) : Describes conf.toYaml conf where
  nodeName := ⟨_, rfl, Or.inl rfl⟩
  nodeId := ⟨_, _, rfl, Or.inl rfl, parseU64_toString conf.nodeId⟩
  persistPath := ⟨_, rfl, Or.inl rfl⟩
  listenerAddr := ⟨_, rfl, Or.inl rfl⟩
  connections := rfl
  serverAddr := ⟨_, rfl, Or.inl rfl⟩
  localPath := ⟨_, rfl, Or.inl rfl⟩

theorem parseDocument_toYaml (conf : ParsedConfig) : parseDocument conf.toYaml = .ok conf :=
  parseDocument_eq_ok_iff.2 (describes_toYaml conf)

/-- **A configuration that is written down is read back.** -/
theorem parseConfig_toYaml {load : String → Option (List Yaml)} {text : String}
    {conf : ParsedConfig} {docs : List Yaml} (hload : load text = some (conf.toYaml :: docs)) :
    parseConfig load (some text) = .ok conf := by
  rw [parseConfig, hload]
  exact parseDocument_toYaml conf

theorem parseConfig_toYaml_machine1 :
    parseConfig loadMachines (some (machineText "machine1" "\"32\"" "machine2" "machine3"))
      = .ok (machineConf "machine1" 32 "machine2" "machine3") := by
  have hload : loadMachines (machineText "machine1" "\"32\"" "machine2" "machine3")
      = some [(machineConf "machine1" 32 "machine2" "machine3").toYaml] := by
    rw [loadMachines, if_neg (by decide +kernel), if_neg (by decide +kernel),
      if_neg (by decide +kernel), if_pos rfl]
    rfl
  exact parseConfig_toYaml hload

end Quaso
