import Galley.Text.Case

/-!
# Languages of code

The languages whose code can be highlighted, by the tags that documents use for them.

* `languageTags`, `languageNames` — the file name endings and the names that are known;
* `languageToken` — the tag that is looked up for a language;
* `isKnownLanguage`, `isPlainText` — what the tables say about a language.
-/

namespace Galley.Code

/-- The file name endings and file names of the known languages, in lower case. -/
def languageTags : List String :=
  [".bash_aliases", ".bash_completions", ".bash_functions", ".bash_login", ".bash_logout",
   ".bash_profile", ".bash_variables", ".bashrc", ".profile", ".textmate_init", "adp", "appfile",
   "applescript", "appraisals", "as", "asa", "asp", "bash", "bat", "berksfile", "bib", "brewfile",
   "bsh", "build", "builder", "c", "c++", "capfile", "cc", "cgi", "cheffile", "cl", "clisp",
   "clj", "cls", "cmd", "config.ru", "cp", "cpp", "cpy", "cs", "css", "css.erb", "css.liquid",
   "csx", "cxx", "d", "ddl", "deliverfile", "di", "diff", "dml", "dot", "dpr", "dtml", "el",
   "emakefile", "erb", "erbsql", "erl", "fasl", "fastfile", "fcgi", "fish", "gemfile", "gemspec",
   "gnumakefile", "go", "gradle", "groovy", "guardfile", "gv", "gvy", "gyp", "gypi", "h", "h++",
   "haml", "hh", "hpp", "hrl", "hs", "htc", "htm", "html", "html.erb", "hxx", "inc", "inl", "ipp",
   "irbrc", "java", "jbuilder", "js", "js.erb", "json", "jsp", "l", "lhs", "lisp", "lsp", "ltx",
   "lua", "m", "mak", "make", "makefile", "markdn", "markdown", "matlab", "md", "mdown", "mk",
   "ml", "mli", "mll", "mly", "mm", "mud", "ocamlmakefile", "opml", "p", "pas", "patch", "php",
   "php3", "php4", "php5", "php7", "phps", "phpt", "phtml", "pl", "pm", "pod", "podspec", "prawn",
   "properties", "pxd", "pxd.in", "pxi", "pxi.in", "py", "py3", "pyi", "pyw", "pyx", "pyx.in",
   "r", "rabl", "rails", "rake", "rakefile", "rantfile", "rb", "rbx", "rd", "re", "rest", "rhtml",
   "rjs", "rprofile", "rpy", "rs", "rss", "rst", "ruby.rail", "rxml", "s", "sass", "sbt", "scala",
   "scanfile", "scm", "sconscript", "sconstruct", "script editor", "sh", "shtml", "simplecov",
   "snakefile", "snapfile", "sql", "sql.erb", "ss", "sty", "sublime-build",
   "sublime-color-scheme", "sublime-commands", "sublime-completions", "sublime-keymap",
   "sublime-macro", "sublime-menu", "sublime-mousemap", "sublime-project", "sublime-settings",
   "sublime-syntax", "sublime-theme", "svg", "t", "tcl", "tex", "textile", "thor", "thorfile",
   "tld", "tmpl", "tpl", "txt", "vagrantfile", "wscript", "xhtml", "xml", "xsd", "xslt", "yaml",
   "yaws", "yml", "zsh"]

/-- The names of the known languages. -/
def languageNames : List String :=
  ["Plain Text", "ASP", "HTML (ASP)", "ActionScript", "AppleScript", "Batch File",
   "NAnt Build File", "C#", "C++", "C", "CSS", "Clojure", "D", "Diff", "Erlang", "HTML (Erlang)",
   "Go", "Graphviz (DOT)", "Groovy", "HTML", "Haskell", "Literate Haskell",
   "Java Server Page (JSP)", "Java", "JavaDoc", "Java Properties", "JSON", "JavaScript",
   "Regular Expressions (Javascript)", "BibTeX", "LaTeX Log", "LaTeX", "TeX", "Lisp", "Lua",
   "Make Output", "Makefile", "Markdown", "MultiMarkdown", "MATLAB", "OCaml", "OCamllex",
   "OCamlyacc", "camlp4", "Objective-C++", "Objective-C", "PHP Source", "PHP", "Pascal", "Perl",
   "Python", "Regular Expressions (Python)", "R Console", "R", "Rd (R Documentation)",
   "HTML (Rails)", "JavaScript (Rails)", "Ruby Haml", "Ruby on Rails", "SQL (Rails)",
   "Regular Expression", "reStructuredText", "Ruby", "Cargo Build Results", "Rust", "SQL",
   "Scala", "Bourne Again Shell (bash)", "Shell-Unix-Generic", "commands-builtin-shell-bash",
   "HTML (Tcl)", "Tcl", "Textile", "XML", "YAML"]

/-- The known names, in lower case. -/
def lowerLanguageNames : List String :=
  languageNames.map fun name => .ofList (Text.lowerAscii name.toList)

/-- The tag that is looked up for a language: in lower case, and for some tags another one. -/
def languageToken (language : String) : String :=
  let token := String.ofList (Text.lowerAscii language.toList)
  if token == "shell" || token == "console" || token == "zsh" then "sh"
  else if token == "c++" then "cpp"
  else if token == "golang" then "go"
  else if token == "yml" then "yaml"
  else if token == "md" then "markdown"
  else token

/-- Whether a language is among the known ones. -/
def isKnownLanguage (language : String) : Bool :=
  let token := languageToken language
  !language.isEmpty && (languageTags.contains token || lowerLanguageNames.contains token)

/-- Whether a language is text without structure. -/
def isPlainText (language : String) : Bool :=
  let token := languageToken language
  token == "txt" || token == "plain text"

end Galley.Code
