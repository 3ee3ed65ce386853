import SmartHome.HttpRequests
import SmartHome.QueryParameters
import SmartHome.SlotTables

/-!
# The file of a request

The web server opens files through a table of ten entries. A request for the
root tries the default names, a request for a command page calls its handler,
and a file that does not exist is replaced by the page for error 404. If an
entry is free, the file is the first one of a list of names.
-/

namespace SmartHome.HttpFiles

open ByteStrings HomePanel HttpRequests QueryParameters WebCommands

abbrev LWIP_MAX_OPEN_FILES : ℕ := 10

/-- A file of the read-only file system. -/
structure fsdata_file where
  name : List UInt8
  data : List ℕ
  deriving DecidableEq

/-- The marks of fs_memory. -/
structure fs_table where
  inuse : List Bool
  size : inuse.length = LWIP_MAX_OPEN_FILES

/-- An open file, in an entry of fs_memory. -/
structure fs_file where
  slot : ℕ
  data : List ℕ
  deriving DecidableEq

/-- All entries are free when the server starts. -/
def fs_memory : fs_table := ⟨List.replicate LWIP_MAX_OPEN_FILES false, List.length_replicate⟩

def fs_table.set (m : fs_table) (i : ℕ) (b : Bool) : fs_table :=
  ⟨m.inuse.set i b, by rw [List.length_set, m.size]⟩

/-- The first free entry is taken. -/
def fs_malloc (m : fs_table) : Option (ℕ × fs_table) :=
  (m.inuse.findIdx? (fun b => !b)).map fun i => (i, m.set i true)

def fs_free (m : fs_table) (i : ℕ) : fs_table := m.set i false

/-- The first file of the name; the entry is given back if there is none. -/
def fs_open (root : List fsdata_file) (m : fs_table) (name : List UInt8) :
    Option fs_file × fs_table :=
  match fs_malloc m with
  | none => (none, m)
  | some (i, m') =>
    match root.find? (fun f => f.name = name) with
    | some f => (some ⟨i, f.data⟩, m')
    | none => (none, fs_free m' i)

/-- Names that are tried one after the other. -/
def openFirst (root : List fsdata_file) (m : fs_table) {α : Type*} (name : α → List UInt8) :
    List α → Option (fs_file × α) × fs_table
  | [] => (none, m)
  | a :: as =>
    match fs_open root m (name a) with
    | (some file, m') => (some (file, a), m')
    | (none, m') => openFirst root m' name as

def errorNames : List (List UInt8) :=
  [bytes "/404.html", bytes "/404.htm", bytes "/404.shtml"]

/-- The page for error 404, with its name. -/
def http_get_404_file (root : List fsdata_file) (m : fs_table) :
    Option (fs_file × List UInt8) × fs_table :=
  openFirst root m id errorNames

/-- The default names, and whether the pages have tags. -/
def g_psDefaultFilenames : List (List UInt8 × Bool) :=
  [(bytes "/index.shtml", true),
   (bytes "/index.ssi", true),
   (bytes "/index.shtm", true),
   (bytes "/index.html", false),
   (bytes "/index.htm", false)]

def g_pcSSIExtensions : List (List UInt8) :=
  [bytes ".shtml", bytes ".shtm", bytes ".ssi", bytes ".xml"]

/-- A name with one of the extensions in it belongs to a page with tags. -/
def isSSI (uri : List UInt8) : Bool := g_pcSSIExtensions.any fun e => (strstr e uri).isSome

/-- The command pages. -/
def ppcURLs : List (List UInt8 × Command) :=
  [(bytes "/leds.cgi", .leds), (bytes "/beep.cgi", .beep), (bytes "/mode.cgi", .mode)]

/-- What a handler may change. -/
structure Control where
  params : param_state
  panel : Panel

/-- Call the handler of a command page; the name of any other file is kept.
Without a result the handler has compared a null pointer. -/
def callHandler (c : Control) (uri : List UInt8) : Option (List UInt8 × Control) :=
  let (base, params) := cutAt 63 uri
  match ppcURLs.lookup base with
  | none => some (uri, c)
  | some command =>
    (serve command c.params params c.panel).map fun (page, panel) =>
      (bytes page, ⟨(extract_uri_parameters c.params params).2, panel⟩)

/-- What http_find_file finds. -/
structure Found where
  file : Option fs_file
  tag_check : Bool
  fs_memory : fs_table
  control : Control

/-- Open the file of a request. -/
def http_find_file (root : List fsdata_file) (m : fs_table) (c : Control) (uri : List UInt8) :
    Option Found :=
  if uri = bytes "/" then
    match openFirst root m Prod.fst g_psDefaultFilenames with
    | (some (file, _, shtml), m') => some ⟨some file, shtml, m', c⟩
    | (none, m') =>
      let found := http_get_404_file root m'
      some ⟨found.1.map Prod.fst, false, found.2, c⟩
  else
    (callHandler c uri).map fun (uri, c') =>
      match fs_open root m uri with
      | (some file, m') => ⟨some file, isSSI uri, m', c'⟩
      | (none, m') =>
        match http_get_404_file root m' with
        | (some (file, uri), m'') => ⟨some file, isSSI uri, m'', c'⟩
        | (none, m'') => ⟨none, false, m'', c'⟩

/-! ### The first file of a list -/

/-- A name and whether its page is searched for tags. -/
abbrev Candidate := List UInt8 × Bool

/-- The names that are tried for a request. -/
def candidates (uri : List UInt8) : List Candidate :=
  if uri = bytes "/" then g_psDefaultFilenames ++ errorNames.map fun name => (name, false)
  else (uri, isSSI uri) :: errorNames.map fun name => (name, isSSI name)

/-- The first of the names that exists. -/
def firstFile (root : List fsdata_file) (names : List Candidate) : Option (List ℕ × Bool) :=
  names.findSome? fun a => (root.find? fun f => f.name = a.1).map fun f => (f.data, a.2)

/-- The entry that fs_malloc takes is free, and giving it back changes nothing. -/
theorem fs_malloc_spec {m m' : fs_table} {i : ℕ} (h : fs_malloc m = some (i, m')) :
    m.inuse[i]? = some false ∧ m'.inuse = m.inuse.set i true ∧ fs_free m' i = m := by
  obtain ⟨j, hj, heq⟩ := Option.map_eq_some_iff.mp h
  cases heq
  have hfree := SlotTables.findFree hj
  refine ⟨hfree, rfl, ?_⟩
  obtain ⟨inuse, size⟩ := m
  simp only [fs_free, fs_table.set, SlotTables.set_set_free hfree]

/-- Opening leaves an entry to the file, or changes nothing. -/
theorem fs_open_eq (root : List fsdata_file) (m : fs_table) (name : List UInt8) :
    fs_open root m name =
      match fs_malloc m, root.find? fun f => f.name = name with
      | some (i, m'), some f => (some ⟨i, f.data⟩, m')
      | _, _ => (none, m) := by
  rw [fs_open]
  cases hmalloc : fs_malloc m with
  | none => rfl
  | some entry =>
    obtain ⟨i, m'⟩ := entry
    cases hfind : root.find? fun f => decide (f.name = name) with
    | some f => rfl
    | none =>
      dsimp only
      rw [(fs_malloc_spec hmalloc).2.2]

/-- Without a free entry nothing is opened. -/
theorem openFirst_full {α : Type*} {root : List fsdata_file} {m : fs_table}
    {name : α → List UInt8} (h : fs_malloc m = none) (as : List α) :
    openFirst root m name as = (none, m) := by
  induction as with
  | nil => rfl
  | cons a as ih =>
    rw [openFirst, fs_open_eq, h]
    exact ih

theorem firstFile_append (root : List fsdata_file) (names names' : List Candidate) :
    firstFile root (names ++ names') =
      (firstFile root names).or (firstFile root names') := List.findSome?_append

/-- With a free entry the first name that exists is opened. -/
theorem openFirst_free {α : Type*} (root : List fsdata_file) {m m' : fs_table} {i : ℕ}
    (h : fs_malloc m = some (i, m')) (name : α → List UInt8) (tag : α → Bool) (as : List α) :
    (∃ data a, openFirst root m name as = (some (⟨i, data⟩, a), m') ∧
        firstFile root (as.map fun a => (name a, tag a)) = some (data, tag a)) ∨
      openFirst root m name as = (none, m) ∧
        firstFile root (as.map fun a => (name a, tag a)) = none := by
  induction as with
  | nil => exact Or.inr ⟨rfl, rfl⟩
  | cons a as ih =>
    rw [openFirst, fs_open_eq, h, List.map_cons, firstFile, List.findSome?_cons]
    cases hfind : root.find? fun f => decide (f.name = name a) with
    | some f => exact Or.inl ⟨f.data, a, rfl, rfl⟩
    | none => exact ih

/-- The page of a command is not the root. -/
theorem page_ne_root (o : Outputs) : bytes (page o) ≠ bytes "/" := by
  have hpages : ∀ entry ∈ pages, bytes entry.2 ≠ bytes "/" := by decide +kernel
  exact hpages _ (mem_pages o)

/-- The root has no handler, and no handler answers with the root. -/
theorem callHandler_root (c : Control) : callHandler c (bytes "/") = some (bytes "/", c) := by
  rfl

theorem callHandler_ne_root {c c' : Control} {uri uri' : List UInt8} (huri : uri ≠ bytes "/")
    (h : callHandler c uri = some (uri', c')) : uri' ≠ bytes "/" := by
  rw [callHandler] at h
  dsimp only at h
  cases hlookup : ppcURLs.lookup (cutAt 63 uri).1 with
  | none =>
    rw [hlookup] at h
    cases h
    exact huri
  | some command =>
    rw [hlookup] at h
    obtain ⟨answer, hserve, hanswer⟩ := Option.map_eq_some_iff.mp h
    cases hanswer
    by_cases hbare : command.param ∈ queryPieces (cutAt 63 uri).2
    · rw [serve_of_bare hbare] at hserve
      cases hserve
    · obtain ⟨q, hq, -⟩ := serve_of_not_bare hbare c.params c.panel
      rw [hq] at hserve
      cases hserve
      exact page_ne_root _

/-- The page that is sent for a request. -/
theorem http_find_file_eq (root : List fsdata_file) (m : fs_table) (c : Control)
    (uri : List UInt8) :
    http_find_file root m c uri =
      (callHandler c uri).map fun (uri, c') =>
        match fs_malloc m, firstFile root (candidates uri) with
        | some (i, m'), some (data, tag_check) => ⟨some ⟨i, data⟩, tag_check, m', c'⟩
        | _, _ => ⟨none, false, m, c'⟩ := by
  rw [http_find_file]
  split_ifs with huri
  · rw [huri, callHandler_root, Option.map_some]
    dsimp only
    have hnames : candidates (bytes "/") = g_psDefaultFilenames.map (fun a => (a.1, a.2)) ++
        errorNames.map (fun name => (id name, false)) := rfl
    rw [hnames, firstFile_append]
    cases hmalloc : fs_malloc m with
    | none =>
      rw [openFirst_full hmalloc]
      dsimp only
      rw [http_get_404_file, openFirst_full hmalloc]
      rfl
    | some entry =>
      obtain ⟨i, m'⟩ := entry
      obtain ⟨data, ⟨name, shtml⟩, hopen, hfile⟩ | ⟨hopen, hfile⟩ :=
        openFirst_free root hmalloc Prod.fst Prod.snd g_psDefaultFilenames
      · rw [hopen, hfile]
        rfl
      · rw [hopen, hfile, Option.none_or]
        dsimp only
        rw [http_get_404_file]
        obtain ⟨data, name, hopen, hfile⟩ | ⟨hopen, hfile⟩ :=
          openFirst_free root hmalloc id (fun _ => false) errorNames
        · rw [hopen, hfile]
          rfl
        · rw [hopen, hfile]
          rfl
  · refine Option.map_congr fun found hfound => ?_
    obtain ⟨uri', c'⟩ := found
    have hroot : uri' ≠ bytes "/" := callHandler_ne_root huri hfound
    dsimp only
    rw [candidates, if_neg hroot, fs_open_eq, ← List.singleton_append, firstFile_append]
    cases hmalloc : fs_malloc m with
    | none =>
      dsimp only
      rw [http_get_404_file, openFirst_full hmalloc]
    | some entry =>
      obtain ⟨i, m'⟩ := entry
      have hone : firstFile root [(uri', isSSI uri')] =
          (root.find? fun f => f.name = uri').map fun f => (f.data, isSSI uri') := by
        rw [firstFile, List.findSome?_singleton]
      rw [hone]
      cases hfind : root.find? fun f => decide (f.name = uri') with
      | some f => rfl
      | none =>
        dsimp only [Option.map_none, Option.none_or]
        rw [http_get_404_file]
        obtain ⟨data, name, hopen, hfile⟩ | ⟨hopen, hfile⟩ :=
          openFirst_free root hmalloc id isSSI errorNames
        · change firstFile root (errorNames.map fun name => (name, isSSI name)) = _ at hfile
          rw [hopen, hfile]
        · change firstFile root (errorNames.map fun name => (name, isSSI name)) = _ at hfile
          rw [hopen, hfile]

/-- A request either gets no file, or the first one of its names. -/
theorem found_cases {root : List fsdata_file} {m : fs_table} {c : Control} {uri : List UInt8}
    {found : Found} (h : http_find_file root m c uri = some found) :
    found.file = none ∨ ∃ name c' file, callHandler c uri = some (name, c') ∧
      found.file = some file ∧
      firstFile root (candidates name) = some (file.data, found.tag_check) := by
  rw [http_find_file_eq] at h
  obtain ⟨⟨name, c'⟩, hcall, rfl⟩ := Option.map_eq_some_iff.mp h
  cases hmalloc : fs_malloc m with
  | none => exact Or.inl rfl
  | some entry =>
    obtain ⟨i, m'⟩ := entry
    cases hfile : firstFile root (candidates name) with
    | none =>
      left
      dsimp only
      rw [hfile]
    | some file =>
      obtain ⟨data, tag_check⟩ := file
      right
      refine ⟨name, c', ⟨i, data⟩, hcall, ?_, ?_⟩
      · dsimp only
        rw [hfile]
      · dsimp only
        rw [hfile]

/-! ### The files of the panel -/

/-- The names in the order of the list that FS_ROOT begins. -/
def fsNames : List String :=
  ["/STM32F103_RTC.shtml", "/STM32F103_ADC_sensor_status.shtml", "/modehome_corridoron.shtml",
   "/modehome_beepon_corridoron.shtml", "/modehome_beepon_bedroomon.shtml",
   "/modehome_beepon.shtml", "/modehome_bedroomon_corridoron.shtml", "/modehome_bedroomon.shtml",
   "/modehome.shtml", "/index.html", "/corridoron.shtml", "/beepon_corridoron.shtml",
   "/beepon_bedroomon_corridoron.shtml", "/beepon_Bedroomon.shtml", "/beepon.shtml",
   "/bedroomon_corridoron.shtml", "/bedroomon.shtml", "/allon.shtml", "/alloff.shtml",
   "/404.html", "/image/tab.jpg"]

/-- The files, with any contents. -/
def FS_ROOT (content : List UInt8 → List ℕ) : List fsdata_file :=
  fsNames.map fun name => ⟨bytes name, content (bytes name)⟩

/-- A file that is listed is found. -/
theorem find_FS_ROOT (content : List UInt8 → List ℕ) {name : String} (h : name ∈ fsNames) :
    (FS_ROOT content).find? (fun f => f.name = bytes name) =
      some ⟨bytes name, content (bytes name)⟩ := by
  have hmem : ⟨bytes name, content (bytes name)⟩ ∈ FS_ROOT content := List.mem_map_of_mem h
  cases hfind : (FS_ROOT content).find? fun f => decide (f.name = bytes name) with
  | none =>
    have hnot := List.find?_eq_none.mp hfind _ hmem
    simp at hnot
  | some f =>
    have hname : f.name = bytes name := by simpa using List.find?_some hfind
    obtain ⟨other, _, rfl⟩ := List.mem_map.mp (List.mem_of_find?_eq_some hfind)
    rw [← hname]

/-- Every page that a command answers with exists and has tags. -/
theorem page_listed (o : Outputs) : page o ∈ fsNames ∧ isSSI (bytes (page o)) = true := by
  have hpages : ∀ entry ∈ pages, entry.2 ∈ fsNames ∧ isSSI (bytes entry.2) = true := by
    decide +kernel
  exact hpages _ (mem_pages o)

/-- The page of a command is sent as it is named, with its tags. -/
theorem firstFile_page (content : List UInt8 → List ℕ) (o : Outputs) :
    firstFile (FS_ROOT content) (candidates (bytes (page o))) =
      some (content (bytes (page o)), true) := by
  obtain ⟨hlisted, htags⟩ := page_listed o
  rw [candidates, if_neg (page_ne_root o), firstFile, List.findSome?_cons,
    find_FS_ROOT content hlisted, htags]
  rfl

end SmartHome.HttpFiles
