import ShellFront.Vocabulary.Basic

/-!
# The vocabulary of the shell

The built-in commands of the shell, by category, as they are when no other vocabulary is given.

## Contents
- `Vocabulary.standard`.
-/

namespace ShellFront

/-- The built-in commands of the shell. -/
def Vocabulary.standard : Vocabulary :=
  { version := "0.3"
    categories :=
      [ ⟨"io",
          ["echo", "print", "pwd", "cd", "cat", "read", "input", "run"]⟩,
        ⟨"file_operations",
          ["touch", "cp", "mv", "rm", "ls", "ll", "mkdir", "ln", "symlink", "chmod", "chown",
           "chgrp", "umask", "home", "rename", "exists", "file-info", "file-size", "file-type",
           "file-test", "write", "append-file", "read-bytes", "write-bytes", "is-file", "is-dir",
           "is-symlink", "glob", "walk", "tree", "basename", "dirname", "realpath", "readlink"]⟩,
        ⟨"lists",
          ["count", "length", "len", "first", "last", "take", "skip", "get", "head", "tail",
           "reverse", "append", "prepend", "flatten", "uniq", "unique", "sum", "avg", "min", "max",
           "range", "enumerate", "compact", "zip", "zip-record", "zip-lists", "chunks", "window",
           "pair", "insert-at", "remove-at", "has", "left", "right"]⟩,
        ⟨"filters",
          ["where", "each", "select", "sort", "sort-by", "group-by", "any", "all", "none", "filter",
           "map", "find", "reject", "mapfile", "tee", "cut"]⟩,
        ⟨"strings",
          ["upper", "lower", "trim", "split", "join", "replace", "lines", "contains", "starts-with",
           "ends-with", "empty", "chars", "char-at", "slice", "index-of", "pad-left", "pad-right",
           "str-pad-left", "str-pad-right", "repeat", "capitalize", "title-case", "str",
           "str-distance", "byte-len", "bytes", "bytes-at", "bytes-slice", "bytes-find",
           "bytes-replace", "bytes-concat", "brace-expand", "wc", "tr", "diff"]⟩,
        ⟨"math",
          ["abs", "round", "ceil", "floor", "pow", "sqrt", "sin", "cos", "tan", "log", "exp",
           "clamp", "lerp", "distance", "angle", "deg-to-rad", "rad-to-deg"]⟩,
        ⟨"bitwise",
          ["band", "bor", "bxor", "bnot", "shl", "shr", "bshl", "bshr", "brol", "bror"]⟩,
        ⟨"formatting",
          ["red", "green", "yellow", "blue", "magenta", "cyan", "bold", "dim", "underline",
           "italic", "blink", "strike", "normal-mode", "reverse-video", "bg-black", "bg-blue",
           "bg-cyan", "bg-green", "bg-magenta", "bg-red", "bg-rgb", "bg-white", "bg-yellow", "rgb",
           "color", "hex", "ansi-test"]⟩,
        ⟨"data_formats",
          ["parse-json", "from-json", "to-json", "parse-yaml", "to-yaml", "parse-toml", "to-toml",
           "parse-csv", "to-csv", "from-html", "to-html", "to-md", "from-ini", "parse-ini",
           "to-ini", "from-msgpack", "to-msgpack", "from-ssv", "from-table", "to-table", "table",
           "table-columns", "table-rows", "table-print"]⟩,
        ⟨"date_time",
          ["now", "now-ms", "timestamp", "date", "parse-date", "format-date", "date-add",
           "date-diff", "date-parse", "seq-date", "from-timestamp", "to-timestamp", "to-timezone",
           "timezones", "cal", "duration-ms", "duration-ns", "duration-secs", "to-duration",
           "elapsed"]⟩,
        ⟨"filesize",
          ["filesize-bytes", "filesize-kb", "filesize-mb", "to-filesize"]⟩,
        ⟨"git",
          ["git-status", "git-log", "git-branch", "git-diff", "git-add", "git-commit", "git-push",
           "git-pull"]⟩,
        ⟨"crypto",
          ["hash-file", "hash-id", "caesar", "xor", "rot13", "aes-encrypt", "aes-decrypt",
           "jwt-decode", "password-gen", "entropy", "random-bytes", "uuid"]⟩,
        ⟨"encoding",
          ["hex-encode", "hex-decode", "hex-dump", "url-encode", "url-decode", "url-parse",
           "url-join"]⟩,
        ⟨"network",
          ["dns-lookup", "ptr-lookup", "whois", "port-scan", "ip-addr", "ping", "netstat",
           "ip-route", "ip-link", "traceroute", "arp", "headers", "recon", "robots"]⟩,
        ⟨"http",
          ["http-get", "http-post", "http-put", "http-delete", "http-patch", "http-head",
           "http-options", "http-request", "http-serve", "download", "fetch", "serve"]⟩,
        ⟨"wifi",
          ["wifi-scan", "wifi-status", "wifi-connect", "wifi-disconnect", "wifi-saved",
           "wifi-forget"]⟩,
        ⟨"bluetooth",
          ["bt-status", "bt-devices", "bt-scan", "bt-connect", "bt-disconnect", "bt-pair",
           "bt-power", "bt-remove"]⟩,
        ⟨"firewall",
          ["firewall-status", "firewall-rules", "firewall-allow", "firewall-deny"]⟩,
        ⟨"binary_analysis",
          ["strings", "binary-info", "parse-elf", "parse-pe", "symbols", "disassemble", "analyze",
           "detect-encoding", "decode-auto"]⟩,
        ⟨"websocket",
          ["ws-connect", "ws-echo"]⟩,
        ⟨"sqlite",
          ["sqlite-create", "sqlite-exec", "sqlite-query", "sqlite-tables", "sqlite-schema"]⟩,
        ⟨"storage",
          ["stor-create", "stor-insert", "stor-get", "stor-delete", "stor-list", "stor-clear"]⟩,
        ⟨"archive",
          ["zip", "unzip"]⟩,
        ⟨"notifications",
          ["notify", "notify-urgent", "notify-progress", "alert"]⟩,
        ⟨"audio",
          ["audio-play", "audio-beep", "audio-volume", "beep"]⟩,
        ⟨"qr",
          ["qr-encode", "qr-save"]⟩,
        ⟨"email",
          ["email-validate", "email-send"]⟩,
        ⟨"ssh",
          ["ssh-exec", "scp-upload"]⟩,
        ⟨"pdf",
          ["pdf-create", "pdf-text"]⟩,
        ⟨"markdown",
          ["md-to-html", "md-parse", "md-strip"]⟩,
        ⟨"display",
          ["monitors", "screenshot", "screenshot-region", "screenshot-window", "windows",
           "screen-size"]⟩,
        ⟨"system",
          ["sys-info", "mem-info", "cpu-info", "disk-info", "processes", "loadavg", "uptime",
           "launch", "hostname", "os", "which", "env", "set-env", "unsetenv", "spawn",
           "spawn-process", "kill-process", "process-list", "term", "term-size"]⟩,
        ⟨"terminal",
          ["cursor-hide", "cursor-show", "cursor-move", "raw-mode"]⟩,
        ⟨"canvas",
          ["canvas-circle", "canvas-clear", "canvas-fill", "canvas-line", "canvas-rect",
           "canvas-resize", "canvas-size", "canvas-text", "canvas-image", "canvas-sprite",
           "canvas-save", "canvas-restore", "canvas-rotate", "canvas-scale", "canvas-translate",
           "canvas-alpha", "canvas-mouse"]⟩,
        ⟨"collision",
          ["collide-rect", "collide-point", "collide-circle"]⟩,
        ⟨"regex",
          ["matches", "match-regex", "replace-regex", "split-regex", "capture-groups", "grep"]⟩,
        ⟨"conversion",
          ["to-int", "to-float", "to-string", "to-bool"]⟩,
        ⟨"predicates",
          ["is-int", "is-float", "is-number", "is-string", "is-bool", "is-list", "is-record",
           "is-null", "is-closure", "is-path", "is-tuple", "is-set", "is-enum", "is-task",
           "is-duration", "is-filesize", "is-empty", "is-table", "is-terminal", "is-defined"]⟩,
        ⟨"sets",
          ["set-add", "set-contains", "set-diff", "set-intersect", "set-remove", "set-to-list",
           "set-union"]⟩,
        ⟨"tuples",
          ["tuple-get", "tuple-to-list"]⟩,
        ⟨"functional",
          ["transpose"]⟩,
        ⟨"utility",
          ["help", "version", "type", "typeof", "sleep", "random", "clear", "aliases", "assert",
           "debug", "describe", "inspect", "seq", "seq-char", "keys", "values", "watch", "confirm",
           "choose", "exec", "validate", "getopts", "sudo", "btw", "progress", "prompt", "project",
           "explore", "theme"]⟩,
        ⟨"clipboard",
          ["clipboard-read", "clipboard-write", "browser-open", "browser-confirm"]⟩,
        ⟨"panels",
          ["open", "close", "toggle", "focus", "hsplit", "vsplit", "edit", "panels"]⟩,
        ⟨"timers",
          ["after", "every", "timeout", "elapsed", "timeit"]⟩,
        ⟨"web_storage",
          ["session-get", "session-set", "local-get", "local-set", "local-remove"]⟩,
        ⟨"location",
          ["location", "location-hash", "location-host", "location-path", "location-search",
           "navigate", "reload", "history-back", "history-forward", "history-search"]⟩,
        ⟨"dom",
          ["dom-get", "dom-set", "dom-query", "dom-create", "dom-remove", "dom-attr", "dom-style",
           "dom-html", "dom-class-add", "dom-class-remove"]⟩,
        ⟨"keyboard",
          ["input-value", "input-set", "input-focus", "input-checked", "input-listen", "key-wait",
           "key-down", "key-pressed", "key-available", "read-key", "read-char"]⟩,
        ⟨"mouse",
          ["mouse-pos", "mouse-x", "mouse-y", "mouse-down"]⟩,
        ⟨"scroll",
          ["scroll-to", "scroll-by"]⟩,
        ⟨"console",
          ["console-log", "error", "printf"]⟩
      ] }

end ShellFront
