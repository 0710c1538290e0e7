/-!
# The list library

Ten procedures on lists, written in the language itself: `length`, `last`, `elem?`, `map`, `foldr`,
`append`, `remove`, `unique`, `reverse` and `flatten`.  The library is one form, so it can be read
and evaluated any number of times.
-/

namespace MiniLisp
namespace ListLibrary

def lines : List String :=
  ["; Bootstrap library: list operations written in the language itself.",
    "; Loaded as one form, so it can be re-parsed any number of times.",
    "(begin",
    "  (define (length xs)",
    "    (if (null? xs)",
    "        0",
    "        (+ 1 (length (cdr xs)))))",
    "",
    "  (define (last xs)",
    "    (cond ((null? xs) '())",
    "          ((null? (cdr xs)) (car xs))",
    "          (else (last (cdr xs)))))",
    "",
    "  (define (elem? x xs)",
    "    (cond ((null? xs) #f)",
    "          ((eq? x (car xs)) #t)",
    "          (else (elem? x (cdr xs)))))",
    "",
    "  (define (map f xs)",
    "    (if (null? xs)",
    "        '()",
    "        (cons (f (car xs)) (map f (cdr xs)))))",
    "",
    "  (define (foldr f init xs)",
    "    (if (null? xs)",
    "        init",
    "        (f (car xs) (foldr f init (cdr xs)))))",
    "",
    "  (define (append xs ys)",
    "    (foldr cons ys xs))",
    "",
    "  ; delete every occurrence of x",
    "  (define (remove x xs)",
    "    (cond ((null? xs) '())",
    "          ((eq? x (car xs)) (remove x (cdr xs)))",
    "          (else (cons (car xs) (remove x (cdr xs))))))",
    "",
    "  ; keeps the first occurrence of each element, in order",
    "  (define (unique xs)",
    "    (if (null? xs)",
    "        '()",
    "        (cons (car xs) (unique (remove (car xs) (cdr xs))))))",
    "",
    "  (define (reverse xs)",
    "    (let ((reverse-onto #f))",
    "      (set! reverse-onto",
    "            (lambda (xs acc)",
    "              (if (null? xs)",
    "                  acc",
    "                  (reverse-onto (cdr xs) (cons (car xs) acc)))))",
    "      (reverse-onto xs '())))",
    "",
    "  (define (flatten x)",
    "    (cond ((null? x) '())",
    "          ((pair? x) (append (flatten (car x)) (flatten (cdr x))))",
    "          (else (list x)))))"]

/-- The text of the library: its lines, each ended by a line feed. -/
def text : List Char :=
  lines.flatMap fun line => line.toList ++ ['\n']

def source : String :=
  String.ofList text

end ListLibrary
end MiniLisp
