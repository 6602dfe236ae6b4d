/-
  MemoryShell/Proofs/Command/Requests.lean
  ========================================
  **A request is read back from its words.**

  Each thing that a request asks for is written as one word: a dash, a letter, a space and the
  value.  The letter alone says what an option is, and the first space ends the letter, so a value
  may hold spaces, colons, dashes and what looks like another option.  Which option comes first does
  not matter, and no word behind the address is looked at.
-/
import MemoryShell.Command.Curl
import MemoryShell.Proofs.Path
import MemoryShell.Proofs.Text.Blank

namespace MemoryShell

namespace Curl

/-! ### The words of a request -/

/-- An option: a dash and a letter, and behind a space its value. -/
def optionWord (letter : Char) (value : String) : String :=
  String.ofList ('-' :: letter :: ' ' :: value.toList)

/-- A header as it is written. -/
def headerText (e : String × String) : String := e.1 ++ ": " ++ e.2

/-- A header that is read back: trimmed texts that are not empty, and no colon in the name. -/
structure IsHeader (name value : String) : Prop where
  trim_name : Text.trim name = name
  name_ne_empty : name ≠ ""
  colon_not_mem : ':' ∉ name.toList
  trim_value : Text.trim value = value
  value_ne_empty : value ≠ ""

/-- The words up to the first that is no option, and with it. -/
def untilUrl (words : List String) : List String :=
  words.takeWhile isOption ++ (words.dropWhile isOption).take 1

end Curl

/-- A request that can be written in words. -/
structure Request.IsWritable (r : Request) : Prop where
  method_ne_empty : r.method ≠ ""
  space_not_mem : ' ' ∉ r.method.toList
  isHeader : ∀ e ∈ r.headers.entries, Curl.IsHeader e.1 e.2
  nodup_names : r.headers.keys.Nodup
  body_ne_empty : ∀ body ∈ r.body, body ≠ ""
  url_not_option : Curl.isOption r.url = false

/-- The options of a request. -/
def Request.options (r : Request) : List String :=
  [Curl.optionWord 'X' r.method] ++
    (r.headers.entries.map (fun e => Curl.optionWord 'H' (Curl.headerText e)) ++
      (r.body.toList.map (Curl.optionWord 'd') ++ if r.includeHeaders then ["-i"] else []))

namespace Curl

/-! ### One option -/

theorem startsWith_optionWord (c letter : Char) (value : String) :
    startsWith ['-', c] (optionWord letter value) = (c == letter) := by
  simp [startsWith, optionWord, List.isPrefixOf]

theorem isOption_optionWord (letter : Char) (value : String) :
    isOption (optionWord letter value) = true := by
  simp [isOption, startsWith, optionWord, List.isPrefixOf]

theorem cutAt_optionWord {letter : Char} (h : letter ≠ ' ') (value : String) :
    Text.cutAt ' ' (optionWord letter value).toList = some (['-', letter], value.toList) := by
  have hletter : ' ' ∉ ['-', letter] := by simp [Ne.symm h]
  rw [optionWord, String.toList_ofList]
  exact Text.cutAt_append hletter value.toList

theorem inlineValue_optionWord {letter : Char} {value : String} (h : letter ≠ ' ')
    (hvalue : value ≠ "") : inlineValue (optionWord letter value) = some value.toList := by
  rw [inlineValue, cutAt_optionWord h]
  exact if_neg (by simpa using hvalue)

/-- A header is cut at the colon behind its name, whatever its value holds. -/
theorem header?_headerText {e : String × String} (h : IsHeader e.1 e.2) :
    header? (headerText e).toList = some e := by
  have htext : (headerText e).toList = e.1.toList ++ ':' :: ' ' :: e.2.toList := by
    simp [headerText]
  have hname : Text.trimChars e.1.toList = e.1.toList := by
    simpa [Text.trim] using congrArg String.toList h.trim_name
  have hvalue : Text.trimChars (' ' :: e.2.toList) = e.2.toList := by
    rw [Text.trimChars, Text.trimStartChars_blank rfl, ← Text.trimChars]
    simpa [Text.trim] using congrArg String.toList h.trim_value
  simp [header?, htext, Text.cutAt_append h.colon_not_mem, hname, hvalue, h.name_ne_empty,
    h.value_ne_empty]

/-! ### All options, in any order -/

section Options

variable {r : Request} {options : List String}

theorem isOption_of_mem_options {option : String} (h : option ∈ r.options) :
    isOption option = true := by
  simp only [Request.options, List.mem_singleton, List.mem_append, List.mem_map] at h
  rcases h with rfl | ⟨e, -, rfl⟩ | ⟨body, -, rfl⟩ | hflag
  · exact isOption_optionWord _ _
  · exact isOption_optionWord _ _
  · exact isOption_optionWord _ _
  · split at hflag
    · rw [List.mem_singleton.mp hflag]
      rfl
    · cases hflag

/-- A letter tells its options from all others. -/
theorem filter_map_optionWord {α : Type} (c letter : Char) (value : α → String) (as : List α) :
    (as.map fun a => optionWord letter (value a)).filter (startsWith ['-', c]) =
      if c = letter then as.map fun a => optionWord letter (value a) else [] := by
  by_cases h : c = letter <;> simp [List.filter_map, Function.comp_def, startsWith_optionWord, h]

theorem filter_flag {c : Char} (h : c ≠ 'i') (flag : Bool) :
    (if flag then ["-i"] else []).filter (startsWith ['-', c]) = [] := by
  cases flag <;> simp [startsWith, List.isPrefixOf, h]

/-- The options of one letter, among all those of a request. -/
theorem filter_options {c : Char} (h : c ≠ 'i') (r : Request) :
    r.options.filter (startsWith ['-', c]) =
      (if c = 'X' then [optionWord 'X' r.method] else []) ++
      ((if c = 'H' then r.headers.entries.map fun e => optionWord 'H' (headerText e) else []) ++
        if c = 'd' then r.body.toList.map (optionWord 'd') else []) := by
  have hmethod := filter_map_optionWord c 'X' id [r.method]
  have hbody := filter_map_optionWord c 'd' id r.body.toList
  simp only [id, List.map_singleton] at hmethod hbody
  rw [Request.options, List.filter_append, List.filter_append, List.filter_append, hmethod,
    filter_map_optionWord, hbody, filter_flag h, List.append_nil]

section Order

variable (h : r.IsWritable) (hperm : options.Perm r.options)
include hperm

/-- Where a request has one option of a letter at most, it is found in any order. -/
theorem find?_eq_head? {c : Char} {found : Option String}
    (hfilter : r.options.filter (startsWith ['-', c]) = found.toList) :
    options.find? (startsWith ['-', c]) = found := by
  have hsame := hfilter ▸ hperm.filter (startsWith ['-', c])
  rw [← List.head?_filter]
  cases found with
  | none => rw [List.perm_nil.mp hsame]; rfl
  | some option => rw [List.perm_singleton.mp hsame]; rfl

theorem contains_flag : options.contains "-i" = r.includeHeaders := by
  have hletter (letter : Char) (value : String) : optionWord letter value ≠ "-i" := by
    intro heq
    simpa [optionWord] using congrArg String.toList heq
  rw [Bool.eq_iff_iff, List.contains_iff_mem, hperm.mem_iff]
  cases hflag : r.includeHeaders <;> simp [Request.options, hflag, hletter, (hletter _ _).symm]

include h

theorem method_options : method options = r.method := by
  have hfind : options.find? (startsWith ['-', 'X']) = some (optionWord 'X' r.method) :=
    find?_eq_head? hperm (by rw [filter_options (by decide)]; simp)
  have hname : r.method.toList.takeWhile (fun c => decide (c ≠ ' ')) = r.method.toList := by
    rw [List.takeWhile_eq_self_iff]
    exact fun c hc => decide_eq_true fun heq => h.space_not_mem (heq ▸ hc)
  have hcut : Text.cutAt ' ' (optionWord 'X' r.method).toList =
      some (['-', 'X'], r.method.toList) :=
    cutAt_optionWord (by decide) r.method
  simp only [method, hfind, hcut, hname, Option.bind_eq_bind, Option.bind_some]
  simp [h.method_ne_empty]

theorem data_options : data options = r.body := by
  have hfind : options.find? (startsWith ['-', 'd']) = r.body.map (optionWord 'd') :=
    find?_eq_head? hperm (by rw [filter_options (by decide)]; simp [Option.toList_map])
  rw [data, hfind]
  cases hbody : r.body with
  | none => rfl
  | some body =>
    have hne := h.body_ne_empty body hbody
    simp [inlineValue_optionWord, hne]

/-- The headers are those of the request, in the order of their options. -/
theorem headers_options : (headers options).entries.Perm r.headers.entries := by
  have hread : (r.options.filter (startsWith ['-', 'H'])).filterMap
      (fun option => (inlineValue option).bind header?) = r.headers.entries := by
    have hvalue : ∀ e ∈ r.headers.entries,
        (inlineValue (optionWord 'H' (headerText e))).bind header? = some e := by
      intro e he
      rw [inlineValue_optionWord (by decide) (by simp [headerText])]
      exact header?_headerText (h.isHeader e he)
    rw [filter_options (by decide)]
    simp only [Char.reduceEq, if_true, if_false, List.nil_append, List.append_nil,
      List.filterMap_map, Function.comp_def]
    rw [List.filterMap_congr hvalue, List.filterMap_some]
  have hpairs := (hperm.filter (startsWith ['-', 'H'])).filterMap
    fun option => (inlineValue option).bind header?
  rw [hread] at hpairs
  rw [headers, Dict.ofList_of_nodup ((hpairs.map Prod.fst).nodup_iff.mpr h.nodup_names)]
  exact hpairs

end Order

end Options

/-! ### Requests -/

/-- Behind options the first word is the address, and it is the last that counts. -/
theorem request_append {options : List String} {url : String}
    (hoptions : ∀ option ∈ options, isOption option = true) (hurl : isOption url = false)
    (further : List String) :
    request (options ++ url :: further) = .ok {
      url
      method := method options
      headers := headers options
      body := if method options = "POST" then data options else none
      includeHeaders := options.contains "-i" } := by
  have hstop : ¬ isOption url = true := by simp [hurl]
  rw [request, if_neg (by simp), List.takeWhile_append_of_pos hoptions,
    List.dropWhile_append_of_pos hoptions, List.takeWhile_cons_of_neg hstop,
    List.dropWhile_cons_of_neg hstop, List.append_nil]

/-- The words behind the address make no difference. -/
theorem request_untilUrl (words : List String) : request (untilUrl words) = request words := by
  have hoptions : ∀ option ∈ words.takeWhile isOption, isOption option = true :=
    fun _ => List.mem_takeWhile_imp
  have hsplit := List.takeWhile_append_dropWhile (p := isOption) (l := words)
  rw [untilUrl]
  cases hrest : words.dropWhile isOption with
  | nil =>
    rw [hrest, List.append_nil] at hsplit
    rw [List.take_nil, List.append_nil, hsplit]
  | cons url further =>
    have hurl : isOption url = false := by
      have hhead := List.head?_dropWhile_not isOption words
      rwa [hrest] at hhead
    have hwords := request_append hoptions hurl further
    rw [← hrest, hsplit] at hwords
    rw [List.take_succ_cons, List.take_zero, request_append hoptions hurl, hwords]

/-- **A request is read back from its words.**  Let the options of a request stand in any order,
    and its address behind them.  Whatever words follow, what is read is the request, but for a body
    that is sent with no other method than POST; and its headers are those of the request, though
    they may come in another order.  Of any words at all only those up to the first that is no
    option make a difference. -/
theorem request_reads_back :
    (∀ r : Request, r.IsWritable → ∀ options further : List String, options.Perm r.options →
      ∃ headers : Dict String, headers.entries.Perm r.headers.entries ∧
        (∀ name, headers.find? name = r.headers.find? name) ∧
        request (options ++ r.url :: further) =
          .ok { r with headers, body := if r.method = "POST" then r.body else none }) ∧
    ∀ words words' : List String, untilUrl words = untilUrl words' →
      request words = request words' := by
  constructor
  · intro r h options further hperm
    have hoptions : ∀ option ∈ options, isOption option = true :=
      fun option hmem => isOption_of_mem_options (hperm.mem_iff.mp hmem)
    have hheaders := headers_options h hperm
    refine ⟨headers options, hheaders, Dict.find?_eq_of_perm h.nodup_names hheaders, ?_⟩
    rw [request_append hoptions h.url_not_option, method_options h hperm, data_options h hperm,
      contains_flag hperm]
  · intro words words' heq
    rw [← request_untilUrl words, heq, request_untilUrl]

/-- A POST request with a space in the name of a header, a colon in its value and a body that looks
    like an option, and options behind the address. -/
theorem request_reads_back_post :
    ∃ headers : Dict String, headers.entries.Perm [("a b", "x: y"), ("c", "-d z")] ∧
      (∀ name, headers.find? name = (Dict.mk [("a b", "x: y"), ("c", "-d z")]).find? name) ∧
      request ["-d -X PUT", "-i", "-H c: -d z", "-X POST", "-H a b: x: y", "example.org", "-i"] =
        .ok ⟨"example.org", "POST", headers, some "-X PUT", true⟩ :=
  request_reads_back.1
    ⟨"example.org", "POST", ⟨[("a b", "x: y"), ("c", "-d z")]⟩, some "-X PUT", true⟩
    { method_ne_empty := by decide
      space_not_mem := by decide +kernel
      isHeader := by
        rw [List.forall_mem_cons, List.forall_mem_singleton]
        exact ⟨⟨by decide +kernel, by decide, by decide +kernel, by decide +kernel, by decide⟩,
          ⟨by decide +kernel, by decide, by decide +kernel, by decide +kernel, by decide⟩⟩
      nodup_names := by decide +kernel
      body_ne_empty := by simp
      url_not_option := by decide +kernel }
    ["-d -X PUT", "-i", "-H c: -d z", "-X POST", "-H a b: x: y"] ["-i"] (by decide +kernel)

end Curl

end MemoryShell
