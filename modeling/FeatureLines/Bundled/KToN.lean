import FeatureLines.Bundled.Language

/-!
# Bundled languages from ka to no
-/

namespace FeatureLines

def bundledKToN : List BundledLanguage := [
  { code := "ka"
    name := "Georgian"
    native := "ქართული"
    feature := ["თვისება", "მოთხოვნა"]
    background := ["კონტექსტი"]
    rule := ["წესი"]
    scenario := ["მაგალითად", "მაგალითი", "მაგ", "სცენარი"]
    scenarioOutline := ["სცენარის ნიმუში", "სცენარის შაბლონი", "ნიმუში", "შაბლონი"]
    examples := ["მაგალითები"]
    givenStep := ["* ", "მოცემული ", "მოცემულია ", "ვთქვათ "]
    whenStep := ["* ", "როდესაც ", "როცა ", "როგორც კი ", "თუ "]
    thenStep := ["* ", "მაშინ "]
    andStep := ["* ", "და ", "ასევე "]
    butStep := ["* ", "მაგრამ ", "თუმცა "] },
  { code := "kn"
    name := "Kannada"
    native := "ಕನ್ನಡ"
    feature := ["ಹೆಚ್ಚಳ"]
    background := ["ಹಿನ್ನೆಲೆ"]
    rule := ["Rule"]
    scenario := ["ಉದಾಹರಣೆ", "ಕಥಾಸಾರಾಂಶ"]
    scenarioOutline := ["ವಿವರಣೆ"]
    examples := ["ಉದಾಹರಣೆಗಳು"]
    givenStep := ["* ", "ನೀಡಿದ "]
    whenStep := ["* ", "ಸ್ಥಿತಿಯನ್ನು "]
    thenStep := ["* ", "ನಂತರ "]
    andStep := ["* ", "ಮತ್ತು "]
    butStep := ["* ", "ಆದರೆ "] },
  { code := "ko"
    name := "Korean"
    native := "한국어"
    feature := ["기능"]
    background := ["배경"]
    rule := ["Rule"]
    scenario := ["시나리오"]
    scenarioOutline := ["시나리오 개요"]
    examples := ["예"]
    givenStep := ["* ", "조건", "먼저"]
    whenStep := ["* ", "만일", "만약"]
    thenStep := ["* ", "그러면"]
    andStep := ["* ", "그리고"]
    butStep := ["* ", "하지만", "단"] },
  { code := "lt"
    name := "Lithuanian"
    native := "lietuvių kalba"
    feature := ["Savybė"]
    background := ["Kontekstas"]
    rule := ["Rule"]
    scenario := ["Pavyzdys", "Scenarijus"]
    scenarioOutline := ["Scenarijaus šablonas"]
    examples := ["Pavyzdžiai", "Scenarijai", "Variantai"]
    givenStep := ["* ", "Duota "]
    whenStep := ["* ", "Kai "]
    thenStep := ["* ", "Tada "]
    andStep := ["* ", "Ir "]
    butStep := ["* ", "Bet "] },
  { code := "lu"
    name := "Luxemburgish"
    native := "Lëtzebuergesch"
    feature := ["Funktionalitéit"]
    background := ["Hannergrond"]
    rule := ["Rule"]
    scenario := ["Beispill", "Szenario"]
    scenarioOutline := ["Plang vum Szenario"]
    examples := ["Beispiller"]
    givenStep := ["* ", "ugeholl "]
    whenStep := ["* ", "wann "]
    thenStep := ["* ", "dann "]
    andStep := ["* ", "an ", "a "]
    butStep := ["* ", "awer ", "mä "] },
  { code := "lv"
    name := "Latvian"
    native := "latviešu"
    feature := ["Funkcionalitāte", "Fīča"]
    background := ["Konteksts", "Situācija"]
    rule := ["Rule"]
    scenario := ["Piemērs", "Scenārijs"]
    scenarioOutline := ["Scenārijs pēc parauga"]
    examples := ["Piemēri", "Paraugs"]
    givenStep := ["* ", "Kad "]
    whenStep := ["* ", "Ja "]
    thenStep := ["* ", "Tad "]
    andStep := ["* ", "Un "]
    butStep := ["* ", "Bet "] },
  { code := "mk-Cyrl"
    name := "Macedonian"
    native := "Македонски"
    feature := ["Функционалност", "Бизнис потреба", "Можност"]
    background := ["Контекст", "Содржина"]
    rule := ["Rule"]
    scenario := ["Пример", "Сценарио", "На пример"]
    scenarioOutline := ["Преглед на сценарија", "Скица", "Концепт"]
    examples := ["Примери", "Сценарија"]
    givenStep := ["* ", "Дадено ", "Дадена "]
    whenStep := ["* ", "Кога "]
    thenStep := ["* ", "Тогаш "]
    andStep := ["* ", "И "]
    butStep := ["* ", "Но "] },
  { code := "mk-Latn"
    name := "Macedonian (Latin)"
    native := "Makedonski (Latinica)"
    feature := ["Funkcionalnost", "Biznis potreba", "Mozhnost"]
    background := ["Kontekst", "Sodrzhina"]
    rule := ["Rule"]
    scenario := ["Scenario", "Na primer"]
    scenarioOutline := ["Pregled na scenarija", "Skica", "Koncept"]
    examples := ["Primeri", "Scenaria"]
    givenStep := ["* ", "Dadeno ", "Dadena "]
    whenStep := ["* ", "Koga "]
    thenStep := ["* ", "Togash "]
    andStep := ["* ", "I "]
    butStep := ["* ", "No "] },
  { code := "mn"
    name := "Mongolian"
    native := "монгол"
    feature := ["Функц", "Функционал"]
    background := ["Агуулга"]
    rule := ["Rule"]
    scenario := ["Сценар"]
    scenarioOutline := ["Сценарын төлөвлөгөө"]
    examples := ["Тухайлбал"]
    givenStep := ["* ", "Өгөгдсөн нь ", "Анх "]
    whenStep := ["* ", "Хэрэв "]
    thenStep := ["* ", "Тэгэхэд ", "Үүний дараа "]
    andStep := ["* ", "Мөн ", "Тэгээд "]
    butStep := ["* ", "Гэхдээ ", "Харин "] },
  { code := "mr"
    name := "Marathi"
    native := "मराठी"
    feature := ["वैशिष्ट्य", "सुविधा"]
    background := ["पार्श्वभूमी"]
    rule := ["नियम"]
    scenario := ["परिदृश्य"]
    scenarioOutline := ["परिदृश्य रूपरेखा"]
    examples := ["उदाहरण"]
    givenStep := ["* ", "जर", "दिलेल्या प्रमाणे "]
    whenStep := ["* ", "जेव्हा "]
    thenStep := ["* ", "मग ", "तेव्हा "]
    andStep := ["* ", "आणि ", "तसेच "]
    butStep := ["* ", "पण ", "परंतु "] },
  { code := "ne"
    name := "Nepali"
    native := "नेपाली"
    feature := ["सुविधा", "विशेषता"]
    background := ["पृष्ठभूमी"]
    rule := ["नियम"]
    scenario := ["परिदृश्य"]
    scenarioOutline := ["परिदृश्य रूपरेखा"]
    examples := ["उदाहरण", "उदाहरणहरु"]
    givenStep := ["* ", "दिइएको ", "दिएको ", "यदि "]
    whenStep := ["* ", "जब "]
    thenStep := ["* ", "त्यसपछि ", "अनी "]
    andStep := ["* ", "र ", "अनि "]
    butStep := ["* ", "तर "] },
  { code := "nl"
    name := "Dutch"
    native := "Nederlands"
    feature := ["Functionaliteit"]
    background := ["Achtergrond"]
    rule := ["Regel"]
    scenario := ["Voorbeeld", "Scenario"]
    scenarioOutline := ["Abstract Scenario"]
    examples := ["Voorbeelden"]
    givenStep := ["* ", "Gegeven ", "Stel "]
    whenStep := ["* ", "Als ", "Wanneer "]
    thenStep := ["* ", "Dan "]
    andStep := ["* ", "En "]
    butStep := ["* ", "Maar "] },
  { code := "no"
    name := "Norwegian"
    native := "norsk"
    feature := ["Egenskap"]
    background := ["Bakgrunn"]
    rule := ["Regel"]
    scenario := ["Eksempel", "Scenario"]
    scenarioOutline := ["Scenariomal", "Abstrakt Scenario"]
    examples := ["Eksempler"]
    givenStep := ["* ", "Gitt "]
    whenStep := ["* ", "Når "]
    thenStep := ["* ", "Så "]
    andStep := ["* ", "Og "]
    butStep := ["* ", "Men "] }]

end FeatureLines
